import Criterion.Proofs.Binary64.Order
import Criterion.Proofs.Expr.Semantics

/-!
# Laws of comparison and logic

Every operator is applied to the values of all its operands. A law of operators on values is
therefore a law of expressions: one that keeps the operands in their order holds of whole outcomes,
failures included, and one that exchanges them holds wherever both have values. On values the laws
are those of truth values and of the order of doubles, with what is no number unequal to everything.
-/

namespace Criterion

/-! ## Operators on values -/

/-- Strict equality differs from loose equality in that it does not coerce. -/
theorem Value.identical_iff (v w : Value) :
    v.identical w = true ↔ v.kind = w.kind ∧ (v.toNumber == w.toNumber) = true := by
  cases v with
  | number x =>
    cases w with
    | number y => simp [identical, kind, toNumber]
    | boolean b => simp [identical, kind]
  | boolean a =>
    cases w with
    | number y => simp [identical, kind]
    | boolean b => cases a <;> cases b <;> decide

namespace BinaryOp

private theorem exists_apply_eq_boolean {op : BinaryOp} (hop : op.isArithmetic = false)
    (v w : Value) :
    ∃ b, op.apply v w = .boolean b := by
  cases op with
  | add | subtract | multiply | divide | remainder => contradiction
  | _ => exact ⟨_, rfl⟩

private theorem not_and_apply (v w : Value) : UnaryOp.not.apply (and.apply v w) =
    or.apply (UnaryOp.not.apply v) (UnaryOp.not.apply w) :=
  congrArg Value.boolean (Bool.not_and v.toBoolean w.toBoolean)

private theorem not_or_apply (v w : Value) : UnaryOp.not.apply (or.apply v w) =
    and.apply (UnaryOp.not.apply v) (UnaryOp.not.apply w) :=
  congrArg Value.boolean (Bool.not_or v.toBoolean w.toBoolean)

/-- The operators that join truth values. -/
def IsLogical (op : BinaryOp) : Prop := op = and ∨ op = or

/-- Logic does not depend on the order of two operands. -/
theorem IsLogical.apply_comm {op : BinaryOp} (hop : op.IsLogical) (v w : Value) :
    op.apply v w = op.apply w v := by
  rcases hop with rfl | rfl
  · exact congrArg Value.boolean (Bool.and_comm v.toBoolean w.toBoolean)
  · exact congrArg Value.boolean (Bool.or_comm v.toBoolean w.toBoolean)

/-- Logic does not depend on the grouping of three operands. -/
theorem IsLogical.apply_assoc {op : BinaryOp} (hop : op.IsLogical) (v w u : Value) :
    op.apply (op.apply v w) u = op.apply v (op.apply w u) := by
  rcases hop with rfl | rfl
  · exact congrArg Value.boolean (Bool.and_assoc v.toBoolean w.toBoolean u.toBoolean)
  · exact congrArg Value.boolean (Bool.or_assoc v.toBoolean w.toBoolean u.toBoolean)

end BinaryOp

namespace Expr

variable {l r : Expr} {env : Environment} {v w : Value} {op op' : BinaryOp}

/-- An expression is true in an environment. -/
def IsTrue (env : Environment) (e : Expr) : Prop := e.evaluate env = .ok (.boolean true)

/-! ## Outcomes of operators -/

/-- A prefix operator is applied to the value of its operand. -/
theorem evaluate_unary (op : UnaryOp) (e : Expr) (env : Environment) :
    (unary op e).evaluate env = do
      let v ← e.evaluate env
      return op.apply v := by
  rw [evaluate, evaluate, run_start, run_start, denote]

/-- A binary operator is applied to the values of its operands, the left one first. -/
theorem evaluate_binary (op : BinaryOp) (l r : Expr) (env : Environment) :
    (binary op l r).evaluate env = do
      let v ← l.evaluate env
      let w ← r.evaluate env
      return op.apply v w := by
  rw [evaluate, evaluate, evaluate, run_start, run_start, run_start, denote]

/-- The outcome of a binary operator whose operands have values. -/
theorem evaluate_binary_of_ok (hl : l.evaluate env = .ok v) (hr : r.evaluate env = .ok w) :
    (binary op l r).evaluate env = .ok (op.apply v w) := by
  rw [evaluate_binary, hl, hr]
  rfl

/-- An operator that yields the negation of another one has the outcome of the negated node. -/
theorem evaluate_not_binary (h : ∀ v w, UnaryOp.not.apply (op.apply v w) = op'.apply v w)
    (l r : Expr) (env : Environment) :
    (unary .not (binary op l r)).evaluate env = (binary op' l r).evaluate env := by
  rw [evaluate_unary, evaluate_binary, evaluate_binary]
  cases l.evaluate env with
  | error failure => rfl
  | ok v =>
    cases r.evaluate env with
    | error failure => rfl
    | ok w => exact congrArg Except.ok (h v w)

/-- Where a negation can be moved to the operands the outcome stays. -/
theorem evaluate_not_binary_not
    (h : ∀ v w, UnaryOp.not.apply (op.apply v w) =
      op'.apply (UnaryOp.not.apply v) (UnaryOp.not.apply w)) (l r : Expr) (env : Environment) :
    (unary .not (binary op l r)).evaluate env =
      (binary op' (unary .not l) (unary .not r)).evaluate env := by
  rw [evaluate_unary, evaluate_binary, evaluate_binary, evaluate_unary, evaluate_unary]
  cases l.evaluate env with
  | error failure => rfl
  | ok v =>
    cases r.evaluate env with
    | error failure => rfl
    | ok w => exact congrArg Except.ok (h v w)

/-- An associative operator has one outcome for both groupings. -/
theorem evaluate_binary_assoc
    (h : ∀ v w u, op.apply (op.apply v w) u = op.apply v (op.apply w u)) (l r m : Expr)
    (env : Environment) :
    (binary op (binary op l r) m).evaluate env = (binary op l (binary op r m)).evaluate env := by
  rw [evaluate_binary, evaluate_binary, evaluate_binary, evaluate_binary]
  cases l.evaluate env with
  | error failure => rfl
  | ok v =>
    cases r.evaluate env with
    | error failure => rfl
    | ok w =>
      cases m.evaluate env with
      | error failure => rfl
      | ok u => exact congrArg Except.ok (h v w u)

/-- Operands that have values can be exchanged together with the operator. -/
theorem evaluate_binary_swap (h : ∀ v w, op.apply v w = op'.apply w v)
    (hl : l.evaluate env = .ok v) (hr : r.evaluate env = .ok w) :
    (binary op l r).evaluate env = (binary op' r l).evaluate env := by
  rw [evaluate_binary_of_ok hl hr, evaluate_binary_of_ok hr hl, h]

/-- The truth of a comparison is what the operator yields. -/
theorem isTrue_binary_iff {b : Bool} (hl : l.evaluate env = .ok v) (hr : r.evaluate env = .ok w)
    (hop : op.apply v w = .boolean b) : (binary op l r).IsTrue env ↔ b = true := by
  rw [IsTrue, evaluate_binary_of_ok hl hr, hop, Except.ok.injEq, Value.boolean.injEq]

/-! ## The laws -/

/-- The laws of comparison and logic. The negation of either equality is the corresponding
inequality, the negations of conjunction and disjunction are those of De Morgan, and either of them
can be grouped in both ways, with the same outcome in every environment, whichever variable is
missing. Where both operands have values, comparisons and logic yield truth values; two values are
strictly equal exactly if they are of one kind and loosely equal; an ordering can be read from
either side; at most as great means less or equal; and logic does not depend on the order of its
operands. -/
theorem operators_lawful (l r : Expr) (env : Environment) :
    (unary .not (binary .identical l r)).evaluate env = (binary .notIdentical l r).evaluate env ∧
    (unary .not (binary .equal l r)).evaluate env = (binary .notEqual l r).evaluate env ∧
    (unary .not (binary .and l r)).evaluate env =
      (binary .or (unary .not l) (unary .not r)).evaluate env ∧
    (unary .not (binary .or l r)).evaluate env =
      (binary .and (unary .not l) (unary .not r)).evaluate env ∧
    (∀ op m, op.IsLogical → (binary op (binary op l r) m).evaluate env =
      (binary op l (binary op r m)).evaluate env) ∧
    ∀ v w, l.evaluate env = .ok v → r.evaluate env = .ok w →
      (∀ op, op.isArithmetic = false → ∃ b, (binary op l r).evaluate env = .ok (.boolean b)) ∧
      ((binary .identical l r).IsTrue env ↔
        v.kind = w.kind ∧ (binary .equal l r).IsTrue env) ∧
      (binary .less l r).evaluate env = (binary .greater r l).evaluate env ∧
      (binary .atMost l r).evaluate env = (binary .atLeast r l).evaluate env ∧
      ((binary .atMost l r).IsTrue env ↔
        (binary .less l r).IsTrue env ∨ (binary .equal l r).IsTrue env) ∧
      ∀ op, op.IsLogical → (binary op l r).evaluate env = (binary op r l).evaluate env := by
  refine ⟨evaluate_not_binary (fun _ _ => rfl) l r env,
    evaluate_not_binary (fun _ _ => rfl) l r env,
    evaluate_not_binary_not BinaryOp.not_and_apply l r env,
    evaluate_not_binary_not BinaryOp.not_or_apply l r env,
    fun op m hop => evaluate_binary_assoc hop.apply_assoc l r m env, ?_⟩
  intro v w hl hr
  have hequal : (binary .equal l r).IsTrue env ↔ (v.toNumber == w.toNumber) = true :=
    isTrue_binary_iff hl hr rfl
  refine ⟨?_, ?_, evaluate_binary_swap (fun _ _ => rfl) hl hr,
    evaluate_binary_swap (fun _ _ => rfl) hl hr, ?_, ?_⟩
  · intro op hop
    obtain ⟨b, hb⟩ := BinaryOp.exists_apply_eq_boolean hop v w
    exact ⟨b, by rw [evaluate_binary_of_ok hl hr, hb]⟩
  · rw [hequal, isTrue_binary_iff hl hr rfl]
    exact v.identical_iff w
  · rw [hequal, isTrue_binary_iff hl hr rfl, isTrue_binary_iff hl hr rfl, decide_eq_true_iff,
      decide_eq_true_iff]
    exact Binary64.le_iff_lt_or_beq
  · intro op hop
    exact evaluate_binary_swap hop.apply_comm hl hr

/-- Truth and the number one are equal without being the same, each is at most the other, and they
can change places in a conjunction. -/
theorem truth_and_one_lawful :
    (boolean true).evaluate .empty = .ok (.boolean true) ∧
      (number Binary64.one).evaluate .empty = .ok (.number Binary64.one) ∧
      BinaryOp.isArithmetic .equal = false ∧ BinaryOp.IsLogical .and ∧
      (binary .equal (boolean true) (number Binary64.one)).IsTrue .empty ∧
      ¬ (binary .identical (boolean true) (number Binary64.one)).IsTrue .empty ∧
      (binary .atMost (boolean true) (number Binary64.one)).IsTrue .empty ∧
      (binary .atLeast (number Binary64.one) (boolean true)).IsTrue .empty ∧
      (binary .and (boolean true) (number Binary64.one)).evaluate .empty =
        (binary .and (number Binary64.one) (boolean true)).evaluate .empty := by
  have hl : (boolean true).evaluate .empty = .ok (.boolean true) := run_start _ _
  have hr : (number Binary64.one).evaluate .empty = .ok (.number Binary64.one) := run_start _ _
  have hequal : (binary .equal (boolean true) (number Binary64.one)).IsTrue .empty :=
    evaluate_binary_of_ok hl hr
  obtain ⟨_, _, _, _, _, hlaws⟩ :=
    operators_lawful (boolean true) (number Binary64.one) .empty
  obtain ⟨_, hidentical, _, hflip, hatMost, hlogic⟩ := hlaws _ _ hl hr
  have hleast := hatMost.2 (.inr hequal)
  refine ⟨hl, hr, rfl, .inl rfl, hequal, ?_, hleast, hflip.symm.trans hleast,
    hlogic .and (.inl rfl)⟩
  intro hsame
  have hkind := (hidentical.1 hsame).1
  contradiction

end Expr

end Criterion
