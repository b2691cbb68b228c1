import Criterion.Proofs.Expr.Exceptions

/-!
# The end of a stream

When no token is left the last one stays the current one. A stream that is read to its very end
without a failure does not end in an operator: an operator that was taken would have been the
operand of itself. Whoever looks for a further operator at the end of a stream thus finds none.
-/

namespace Criterion.Expr

variable {last : Token} {limit : Int} {deeper : Rules} {tokens rest : List Token} {e : Expr}

/-- What is left of a stream with a given last token: it ends in that token or is empty. -/
def EndsIn (last : Token) (tokens : List Token) : Prop := ∀ t ∈ tokens.getLast?, t = last

/-- The end of what is left of a stream is left of it, too. -/
theorem EndsIn.of_suffix (h : EndsIn last tokens) (hsuffix : rest <:+ tokens) :
    EndsIn last rest := by
  obtain ⟨before, rfl⟩ := hsuffix
  intro t ht
  refine h t ?_
  rw [List.getLast?_append, Option.mem_def.1 ht]
  rfl

/-- Where nothing follows the current token it is the last one. -/
theorem EndsIn.current_eq (h : EndsIn last tokens) (hrest : tokens.tail = []) :
    current last tokens = last := by
  cases tokens with
  | nil => rfl
  | cons t tokens =>
    obtain rfl : tokens = [] := hrest
    exact h t rfl

/-- Rules that come to the end of a stream have not taken an operator there. -/
structure Rules.EndInOperand (last : Token) (rules : Rules) : Prop where
  operand {tokens : List Token} {e : Expr} (hend : EndsIn last tokens)
    (h : rules.operand tokens = .ok (e, [])) : last.kind ≠ .operator
  expression {floor : Nat} {tokens : List Token} {e : Expr} (hend : EndsIn last tokens)
    (h : rules.expression floor tokens = .ok (e, [])) : last.kind ≠ .operator

/-- A group that ends with the stream ends in a parenthesis. -/
theorem close_endInOperand {e' : Expr} (hend : EndsIn last tokens)
    (h : close last e tokens = .ok (e', [])) : last.kind ≠ .operator := by
  rw [close] at h
  split at h
  · rename_i hk
    obtain ⟨_, hrest⟩ := Prod.mk.inj (Except.ok.inj h)
    rw [hend.current_eq hrest] at hk
    rw [hk]
    decide
  · contradiction

/-- Literals, variables and groups do not end in an operator. -/
theorem primary_endInOperand (hd : deeper.LeaveEnds) (hend : EndsIn last tokens)
    (h : primary last deeper tokens = .ok (e, [])) : last.kind ≠ .operator := by
  have hlast (hk : (current last tokens).kind ≠ .operator) (hrest : tokens.tail = []) :
      last.kind ≠ .operator := by rwa [hend.current_eq hrest] at hk
  cases hk : (current last tokens).kind with
  | number =>
    simp only [primary, hk] at h
    cases hvalue : (current last tokens).value.toFloat with
    | error failure =>
      rw [hvalue] at h
      contradiction
    | ok x =>
      rw [hvalue] at h
      exact hlast (by rw [hk]; decide) (Prod.mk.inj (Except.ok.inj h)).2
  | boolean | ident =>
    simp only [primary, hk] at h
    exact hlast (by rw [hk]; decide) (Prod.mk.inj (Except.ok.inj h)).2
  | opening =>
    simp only [primary, hk] at h
    cases hinner : deeper.expression 0 tokens.tail with
    | error failure =>
      simp only [hinner] at h
      contradiction
    | ok p =>
      simp only [hinner] at h
      have hsuffix := (hd.expression 0 tokens.tail p.1 p.2 hinner).trans (List.tail_suffix tokens)
      exact close_endInOperand (hend.of_suffix hsuffix) h
  | operator | closing | eof =>
    simp only [primary, hk] at h
    contradiction

/-- A prefix operator is followed by an operand. -/
theorem operand_endInOperand (hd : deeper.LeaveEnds) (ho : deeper.EndInOperand last)
    (hend : EndsIn last tokens) (h : operand last deeper tokens = .ok (e, [])) :
    last.kind ≠ .operator := by
  cases hop : (current last tokens).unaryOp? with
  | error failure =>
    simp only [operand, hop] at h
    contradiction
  | ok op? =>
    cases op? with
    | none =>
      simp only [operand, hop] at h
      exact primary_endInOperand hd hend h
    | some op =>
      simp only [operand, hop] at h
      cases hinner : deeper.operand tokens.tail with
      | error failure =>
        rw [hinner] at h
        contradiction
      | ok p =>
        obtain ⟨inner, rest⟩ := p
        rw [hinner] at h
        cases h
        exact ho.operand (hend.of_suffix (List.tail_suffix tokens)) hinner

/-- A binary operator is followed by an operand. -/
theorem chain_endInOperand (hd : deeper.LeaveEnds) (ho : deeper.EndInOperand last) {floor : Nat}
    {turns : List Token} {left : Expr} (hend : EndsIn last tokens)
    (hleft : tokens = [] → last.kind ≠ .operator)
    (h : chain deeper floor turns left tokens = .ok (e, [])) : last.kind ≠ .operator := by
  induction turns generalizing left tokens with
  | nil =>
    cases h
    exact hleft rfl
  | cons turn turns ih =>
    cases tokens with
    | nil => exact hleft rfl
    | cons t tokens =>
      rcases exists_join_or_below floor t tokens with ⟨op, hop, hle⟩ | hbelow
      · rw [chain_join hop hle] at h
        have htail := hend.of_suffix (List.suffix_cons t tokens)
        cases hright : deeper.expression (op.level + 1) tokens with
        | error failure =>
          simp only [hright] at h
          contradiction
        | ok p =>
          obtain ⟨right, rest⟩ := p
          simp only [hright] at h
          have hsuffix := hd.expression _ _ right rest hright
          refine ih (htail.of_suffix hsuffix) ?_ h
          rintro rfl
          exact ho.expression htail hright
      · rw [chain_stop hbelow] at h
        cases h

/-- Rules built on rules that come to the end of a stream in an operand do so, too. -/
theorem Rules.EndInOperand.above (ho : deeper.EndInOperand last) (hd : deeper.LeaveEnds) :
    (Rules.above last deeper).EndInOperand last where
  operand := operand_endInOperand hd ho
  expression {floor tokens e} hend h := by
    simp only [Rules.above] at h
    cases hleft : Expr.operand last deeper tokens with
    | error failure =>
      simp only [hleft] at h
      contradiction
    | ok p =>
      obtain ⟨left, rest⟩ := p
      simp only [hleft] at h
      refine chain_endInOperand hd ho
        (hend.of_suffix (operand_leavesEnd hd tokens left rest hleft)) ?_ h
      rintro rfl
      exact operand_endInOperand hd ho hend hleft

/-- The rules of every height come to the end of a stream in an operand. -/
theorem Rules.tower_endInOperand (levels : Nat) :
    (Rules.tower last limit levels).EndInOperand last := by
  induction levels with
  | zero =>
    constructor
    · intro tokens e _ h
      contradiction
    · intro floor tokens e _ h
      contradiction
  | succ levels ih => exact ih.above (Rules.tower_leaveEnds levels)

end Criterion.Expr
