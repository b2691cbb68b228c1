import Criterion.Proofs.Expr.Climbing

/-!
# Raising the limit of depth

Towers of different heights read a stream in lockstep until the lower one has no level left, on
well-typed streams as on all others. What the lower one makes of a stream is therefore its refusal
for its depth or else what the higher one makes of it, be that a tree or another refusal.
-/

namespace Criterion.Expr

/-- One outcome is the refusal of a depth, or it is the other outcome. -/
def AgreesUnlessDeep {α : Type} (limit : Int) (outcome outcome' : Except Failure α) : Prop :=
  (∃ pos, outcome = reject (.tooDeep limit) (some pos)) ∨ outcome = outcome'

variable {last : Token} {limit limit' : Int} {deeper deeper' : Rules}

/-- Rules agree with other rules on every stream unless they refuse its depth. -/
structure Rules.Precede (limit : Int) (rules rules' : Rules) : Prop where
  operand (tokens : List Token) :
    AgreesUnlessDeep limit (rules.operand tokens) (rules'.operand tokens)
  expression (floor : Nat) (tokens : List Token) :
    AgreesUnlessDeep limit (rules.expression floor tokens) (rules'.expression floor tokens)

/-! ## One level of rules -/

/-- Only groups ask the level below. -/
theorem primary_agrees (h : deeper.Precede limit deeper') (tokens : List Token) :
    AgreesUnlessDeep limit (primary last deeper tokens) (primary last deeper' tokens) := by
  cases hk : (current last tokens).kind with
  | opening =>
    simp only [primary, hk]
    rcases h.expression 0 tokens.tail with ⟨pos, hdeep⟩ | hsame
    · rw [hdeep]
      exact .inl ⟨pos, rfl⟩
    · rw [hsame]
      exact .inr rfl
  | _ =>
    simp only [primary, hk]
    exact .inr rfl

/-- Only prefix operators and groups ask the level below. -/
theorem operand_agrees (h : deeper.Precede limit deeper') (tokens : List Token) :
    AgreesUnlessDeep limit (operand last deeper tokens) (operand last deeper' tokens) := by
  cases hop : (current last tokens).unaryOp? with
  | error failure =>
    simp only [operand, hop]
    exact .inr rfl
  | ok op? =>
    cases op? with
    | none =>
      simp only [operand, hop]
      exact primary_agrees h tokens
    | some op =>
      simp only [operand, hop]
      rcases h.operand tokens.tail with ⟨pos, hdeep⟩ | hsame
      · rw [hdeep]
        exact .inl ⟨pos, rfl⟩
      · rw [hsame]
        exact .inr rfl

/-- Of the loop only the right operands ask the level below. -/
theorem chain_agrees (h : deeper.Precede limit deeper') (floor : Nat) (turns : List Token)
    (left : Expr) (tokens : List Token) :
    AgreesUnlessDeep limit (chain deeper floor turns left tokens)
      (chain deeper' floor turns left tokens) := by
  induction turns generalizing left tokens with
  | nil => exact .inr rfl
  | cons turn turns ih =>
    cases tokens with
    | nil => exact .inr rfl
    | cons t tokens =>
      rcases exists_join_or_below floor t tokens with ⟨op, hop, hle⟩ | hbelow
      · rw [chain_join hop hle, chain_join hop hle]
        rcases h.expression (op.level + 1) tokens with ⟨pos, hdeep⟩ | hsame
        · rw [hdeep]
          exact .inl ⟨pos, rfl⟩
        · rw [hsame]
          cases deeper'.expression (op.level + 1) tokens with
          | error failure => exact .inr rfl
          | ok p => exact ih (.binary op left p.1) p.2
      · rw [chain_stop hbelow, chain_stop hbelow]
        exact .inr rfl

/-- Rules built on agreeing rules agree. -/
theorem Rules.Precede.above (h : deeper.Precede limit deeper') :
    (Rules.above last deeper).Precede limit (Rules.above last deeper') where
  operand tokens := operand_agrees h tokens
  expression floor tokens := by
    simp only [Rules.above]
    rcases operand_agrees h tokens with ⟨pos, hdeep⟩ | hsame
    · rw [hdeep]
      exact .inl ⟨pos, rfl⟩
    · rw [hsame]
      cases Expr.operand last deeper' tokens with
      | error failure => exact .inr rfl
      | ok p => exact chain_agrees h floor p.2 p.1 p.2

/-! ## Towers -/

/-- A tower agrees with every tower that is at least as high. -/
theorem Rules.tower_precede {levels levels' : Nat} (h : levels ≤ levels') :
    (Rules.tower last limit levels).Precede limit (Rules.tower last limit' levels') := by
  induction levels generalizing levels' with
  | zero =>
    constructor
    · intro tokens
      exact .inl ⟨_, rfl⟩
    · intro floor tokens
      exact .inl ⟨_, rfl⟩
  | succ levels ih =>
    obtain ⟨levels', rfl⟩ : ∃ n, levels' = n + 1 := ⟨levels' - 1, by omega⟩
    exact (ih (by omega)).above

/-- A stream has the same outcome under a raised limit of depth, unless it was refused for its
depth. -/
theorem ofTokens_agrees {maxDepth maxDepth' : Int} (hpos : 1 ≤ maxDepth)
    (hraised : maxDepth ≤ maxDepth') (hle : maxDepth' ≤ deepestLimit) (tokens : List Token) :
    AgreesUnlessDeep maxDepth (ofTokens tokens maxDepth) (ofTokens tokens maxDepth') := by
  have hrange : ¬ (maxDepth < 1 ∨ (deepestLimit : Int) < maxDepth) := by omega
  have hrange' : ¬ (maxDepth' < 1 ∨ (deepestLimit : Int) < maxDepth') := by omega
  have hlevels : maxDepth.toNat + 1 ≤ maxDepth'.toNat + 1 := by omega
  simp only [ofTokens, Bool.or_eq_true, decide_eq_true_eq, if_neg hrange, if_neg hrange']
  cases tokens.getLast? with
  | none => exact .inr rfl
  | some last =>
    have htower : (Rules.tower last maxDepth (maxDepth.toNat + 1)).Precede maxDepth
        (Rules.tower last maxDepth' (maxDepth'.toNat + 1)) := Rules.tower_precede hlevels
    rcases htower.expression 0 tokens with ⟨pos, hdeep⟩ | hsame
    · simp only [hdeep]
      exact .inl ⟨pos, rfl⟩
    · simp only [hsame]
      exact .inr rfl

end Criterion.Expr
