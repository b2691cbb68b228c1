import Criterion.Proofs.Expr.Semantics
import Criterion.Rule

/-!
# The kind of a result before it is there

The kind of an expression is read off its outermost node, whereas its value is computed from all of
them. The two meet at the operators: whatever operands they are applied to, and however these are
coerced, what they yield is of the kind that their nodes have. Only the kind of a variable is a
matter of trust in what is said about the variables.
-/

namespace Criterion

/-- What is said about the kinds of variables is true of their values. A variable that is said to be
of any kind, or one without a value, is none that could prove it wrong. -/
def Environment.Respects (env : Environment) (kinds : List (String × Kind)) : Prop :=
  ∀ name kind, kinds.lookup name = some kind → kind ≠ .any →
    ∀ v, env.find? name = some v → v.kind = kind

namespace Expr

variable {e : Expr} {env : Environment} {kinds : List (String × Kind)} {v : Value}

/-! ## Operators -/

private theorem kind_apply_unary (op : UnaryOp) (operand : Expr) (v : Value) :
    (op.apply v).kind = (unary op operand).kind kinds := by
  cases op <;> rfl

private theorem kind_apply_binary (op : BinaryOp) (left right : Expr) (v w : Value) :
    (op.apply v w).kind = (binary op left right).kind kinds := by
  cases op <;> rfl

/-- The value of a prefix operator's node is what the operator yields. -/
theorem exists_of_denote_unary {op : UnaryOp} {operand : Expr}
    (h : (unary op operand).denote env = .ok v) :
    ∃ w, operand.denote env = .ok w ∧ v = op.apply w := by
  rw [denote] at h
  cases hoperand : operand.denote env with
  | error failure =>
    rw [hoperand] at h
    contradiction
  | ok w =>
    rw [hoperand] at h
    cases h
    exact ⟨w, rfl, rfl⟩

/-- The value of a binary operator's node is what the operator yields. -/
theorem exists_of_denote_binary {op : BinaryOp} {left right : Expr}
    (h : (binary op left right).denote env = .ok v) :
    ∃ w u, left.denote env = .ok w ∧ right.denote env = .ok u ∧ v = op.apply w u := by
  rw [denote] at h
  cases hleft : left.denote env with
  | error failure =>
    rw [hleft] at h
    contradiction
  | ok w =>
    cases hright : right.denote env with
    | error failure =>
      rw [hleft, hright] at h
      contradiction
    | ok u =>
      rw [hleft, hright] at h
      cases h
      exact ⟨w, u, rfl, rfl, rfl⟩

/-! ## Expressions -/

/-- Nothing but a variable about which nothing is said can be of any kind. -/
theorem kind_eq_any_iff : e.kind kinds = .any ↔
    ∃ name, e = .ident name ∧ (kinds.lookup name = none ∨ kinds.lookup name = some .any) := by
  cases e with
  | number x | boolean b => simp [kind]
  | ident name =>
    rw [kind]
    constructor
    · intro h
      refine ⟨name, rfl, ?_⟩
      cases hkind : kinds.lookup name with
      | none => exact .inl rfl
      | some kind =>
        rw [hkind] at h
        exact .inr (congrArg some h)
    · rintro ⟨_, ⟨⟩, hkind | hkind⟩
      · rw [hkind]
        rfl
      · rw [hkind]
        rfl
  | unary op operand => cases op <;> simp [kind]
  | binary op left right =>
    rw [kind]
    split <;> simp

/-- A variable that has a value is of the kind of that value, or of any kind. -/
theorem kind_ident_of_respects {name : String} (h : env.Respects kinds)
    (hv : env.find? name = some v) :
    (ident name).kind kinds = v.kind ∨ (ident name).kind kinds = .any := by
  rw [kind]
  cases hkind : kinds.lookup name with
  | none => exact .inr rfl
  | some kind =>
    by_cases hany : kind = .any
    · exact .inr hany
    · exact .inl (h name kind hkind hany v hv).symm

/-- An expression that has a value is of the kind of that value, or of any kind. -/
theorem kind_of_denote (h : env.Respects kinds) (hv : e.denote env = .ok v) :
    e.kind kinds = v.kind ∨ e.kind kinds = .any := by
  cases e with
  | number x | boolean b =>
    cases hv
    exact .inl rfl
  | ident name =>
    rw [denote] at hv
    cases hfind : env.find? name with
    | none =>
      rw [hfind] at hv
      contradiction
    | some w =>
      rw [hfind] at hv
      cases hv
      exact kind_ident_of_respects h hfind
  | unary op operand =>
    obtain ⟨w, _, rfl⟩ := exists_of_denote_unary hv
    exact .inl (kind_apply_unary op operand w).symm
  | binary op left right =>
    obtain ⟨w, u, _, _, rfl⟩ := exists_of_denote_binary hv
    exact .inl (kind_apply_binary op left right w u).symm

end Expr

/-! ## Rules -/

private theorem Environment.respects_nil (env : Environment) : env.Respects [] := by
  intro name kind h
  contradiction

/-- A rule that runs has evaluated its expression in the environment of its variables. -/
theorem Rule.exists_of_run {rule : Rule} {supplied : Datum} {v : Value}
    (h : rule.run supplied = .ok v) :
    ∃ env, Environment.ofDatum supplied = .ok env ∧ rule.expr.denote env = .ok v := by
  rw [Rule.run] at h
  cases henv : Environment.ofDatum supplied with
  | error failure =>
    rw [henv] at h
    contradiction
  | ok env =>
    rw [henv] at h
    exact ⟨env, rfl, (Expr.run_start env rule.expr).symm.trans h⟩

/-- The kind of an expression is that of its value wherever it is known, if what is said about the
variables is true; it is left open for nothing but a variable by itself about which nothing is said.
Hence the results of a rule that is more than a variable are all of the kind that the rule has
before it is run. -/
theorem kind_sound {e : Expr} {env : Environment} {kinds : List (String × Kind)} {v : Value}
    (hkinds : env.Respects kinds) (hv : e.evaluate env = .ok v) :
    (e.kind kinds = v.kind ∨ e.kind kinds = .any) ∧
      (e.kind kinds = .any ↔
        ∃ name, e = .ident name ∧ (kinds.lookup name = none ∨ kinds.lookup name = some .any)) ∧
      ∀ (rule : Rule) (supplied : Datum) (w : Value), rule.run supplied = .ok w →
        (∀ name, rule.expr ≠ .ident name) → rule.kind = w.kind := by
  rw [Expr.evaluate, Expr.run_start] at hv
  refine ⟨Expr.kind_of_denote hkinds hv, Expr.kind_eq_any_iff, ?_⟩
  intro rule supplied w hrun hvariable
  obtain ⟨env', _, hw⟩ := Rule.exists_of_run hrun
  refine (Expr.kind_of_denote env'.respects_nil hw).resolve_right fun hany => ?_
  obtain ⟨name, hname, _⟩ := Expr.kind_eq_any_iff.1 hany
  exact hvariable name hname

/-- The tree of `-flag < total`, whose first variable is coerced. -/
def balanceTree : Expr := .binary .less (.unary .negate (.ident "flag")) (.ident "total")

/-- A truth value is negated and compared with a number, which makes a truth value; and the rule of
the comparison says so before it is run. -/
theorem balanceTree_kind :
    Environment.Respects ⟨[("flag", .boolean true), ("total", .number Binary64.one)]⟩
        [("flag", .boolean), ("total", .any)] ∧
      balanceTree.evaluate ⟨[("flag", .boolean true), ("total", .number Binary64.one)]⟩ =
        .ok (.boolean true) ∧
      balanceTree.kind [("flag", .boolean), ("total", .any)] = .boolean ∧
      Rule.run ⟨"-flag < total", balanceTree⟩
          (.dictionary [(.text "flag", .boolean true), (.text "total", .boolean true)]) =
        .ok (.boolean true) ∧
      Rule.kind ⟨"-flag < total", balanceTree⟩ = .boolean := by
  have hkinds : Environment.Respects
      ⟨[("flag", .boolean true), ("total", .number Binary64.one)]⟩
      [("flag", .boolean), ("total", .any)] := by
    intro name kind hkind hany v hv
    by_cases hflag : name = "flag"
    · subst hflag
      cases hkind
      cases hv
      rfl
    · -- The other variable may be of any kind, and further ones are not mentioned.
      by_cases htotal : name = "total"
      · subst htotal
        cases hkind
        exact absurd rfl hany
      · simp only [List.lookup_cons, beq_false_of_ne hflag, beq_false_of_ne htotal] at hkind
        contradiction
  have hvalue : balanceTree.evaluate
      ⟨[("flag", .boolean true), ("total", .number Binary64.one)]⟩ = .ok (.boolean true) :=
    (Expr.run_start _ balanceTree).trans rfl
  have hrun : Rule.run ⟨"-flag < total", balanceTree⟩
      (.dictionary [(.text "flag", .boolean true), (.text "total", .boolean true)]) =
        .ok (.boolean true) :=
    (Expr.run_start _ balanceTree).trans rfl
  obtain ⟨hkind, hopen, hrule⟩ := kind_sound hkinds hvalue
  refine ⟨hkinds, hvalue, hkind.resolve_right fun hany => ?_, hrun, hrule _ _ _ hrun nofun⟩
  obtain ⟨name, hname, _⟩ := hopen.1 hany
  contradiction

end Criterion
