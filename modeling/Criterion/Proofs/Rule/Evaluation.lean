import Criterion.Rule

/-!
# Evaluating once and running a rule

A source is evaluated as its rule is run. The two look at the variables and at the source in
another order: of two faults at once an evaluation reports that of the variables.
-/

namespace Criterion

variable {limits : Limits} {source : String} {rule : Rule} {failure : Failure}

namespace Rule

/-- A source is compiled to the rule of its tree. -/
theorem compile_eq_ok_iff :
    (compile limits source).outcome = .ok rule ↔
      rule.source = source ∧ Expr.parse limits source = .ok rule.expr := by
  obtain ⟨s, e⟩ := rule
  rw [compile]
  cases hparse : Expr.parse limits source with
  | error failure => exact ⟨fun h => by contradiction, fun ⟨_, h⟩ => by contradiction⟩
  | ok expr =>
    constructor
    · intro h
      cases h
      exact ⟨rfl, rfl⟩
    · rintro ⟨rfl, h⟩
      cases h
      rfl

/-- A source without a tree is not compiled, for the same cause. -/
theorem compile_eq_error_iff :
    (compile limits source).outcome = .error failure ↔
      Expr.parse limits source = .error failure := by
  rw [compile]
  cases hparse : Expr.parse limits source with
  | ok expr => exact ⟨fun h => by contradiction, fun h => by contradiction⟩
  | error failure' =>
    constructor
    · intro h
      cases h
      rfl
    · intro h
      cases h
      rfl

end Rule

/-- Variables that are refused are refused before an expression is looked at. -/
theorem evaluate_of_refused {supplied : Datum} (h : Environment.ofDatum supplied = .error failure)
    (limits : Limits) (source : String) :
    (evaluate limits source supplied).outcome = .error failure := by
  rw [evaluate, h]
  rfl

/-- A source that is compiled is evaluated by running its rule. -/
theorem evaluate_of_compile (h : (Rule.compile limits source).outcome = .ok rule)
    (supplied : Datum) : evaluate limits source supplied = .of (rule.run supplied) := by
  obtain ⟨_, hparse⟩ := Rule.compile_eq_ok_iff.1 h
  rw [evaluate, hparse, Rule.run]
  rfl

/-- A source that is not compiled is not evaluated either. Only a fault of the variables comes
before its own. -/
theorem evaluate_of_not_compiled (h : (Rule.compile limits source).outcome = .error failure)
    (supplied : Datum) :
    evaluate limits source supplied =
      .of (match Environment.ofDatum supplied with
        | .ok _ => .error failure
        | .error unsupported => .error unsupported) := by
  rw [evaluate, Rule.compile_eq_error_iff.1 h]
  cases Environment.ofDatum supplied <;> rfl

end Criterion
