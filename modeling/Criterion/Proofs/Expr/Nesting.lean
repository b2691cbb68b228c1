import Criterion.Proofs.Expr.Climbing

/-!
# What nesting costs

A derivation of nesting `n` is read by every tower of more than `n` levels, and by none of `n`
levels or fewer: those refuse it for its depth and for nothing else. The levels are a budget that
is handed down and never handed back, so no balance of a counter is at stake: the left operands of
a chain are read with the whole budget, and each right operand with one level less.
-/

namespace Criterion.Expr

variable {last : Token} {limit : Int}

theorem operand_of_kind_ne {deeper : Rules} {t : Token} (hk : t.kind ≠ .operator)
    (rest : List Token) :
    operand last deeper (t :: rest) = primary last deeper (t :: rest) := by
  simp only [operand, current, List.headD_cons, Token.unaryOp?_eq_none hk]

/-- A prefix operator leaves its operand to the level below. -/
theorem operand_of_spells {deeper : Rules} {t : Token} {op : UnaryOp} (h : t.Spells op.symbol)
    (rest : List Token) :
    operand last deeper (t :: rest) =
      (deeper.operand rest).map fun (e, rest) => (.unary op e, rest) := by
  simp only [operand, current, List.headD_cons, List.tail_cons, Token.unaryOp?_of_spells h]

/-- A literal or a variable is read at any level. -/
theorem operand_of_atom {deeper : Rules} {t : Token} {e : Expr} (h : Atom t e)
    (rest : List Token) : operand last deeper (t :: rest) = .ok (e, rest) := by
  cases h with
  | number x pos => rfl
  | boolean b pos => rfl
  | ident name pos => rfl

/-- A group leaves its inside to the level below and then asks for its closing parenthesis. -/
theorem operand_of_opening {deeper : Rules} {t : Token} (h : t.kind = .opening)
    (rest : List Token) :
    operand last deeper (t :: rest) =
      match deeper.expression 0 rest with
      | .ok (e, rest) => close last e rest
      | .error failure => .error failure := by
  rw [operand_of_kind_ne (by simp [h])]
  cases hinner : deeper.expression 0 rest with
  | error failure => simp only [primary, current, List.headD_cons, List.tail_cons, h, hinner]
  | ok p =>
      obtain ⟨e, rest⟩ := p
      simp only [primary, current, List.headD_cons, List.tail_cons, h, hinner]

theorem close_of_closing {t : Token} (h : t.kind = .closing) (e : Expr) (rest : List Token) :
    close last e (t :: rest) = .ok (e, rest) := by
  simp only [close, current, List.headD_cons, h, ite_true, List.tail_cons]

theorem tower_operand (levels : Nat) :
    (Rules.tower last limit (levels + 1)).operand =
      Expr.operand last (Rules.tower last limit levels) := rfl

/-- What a tower makes of an expression at the front of a stream, up to the point where the loop
goes on with what follows. The number of turns left does not matter as long as there are enough. -/
def Continues (last : Token) (limit : Int) (levels floor : Nat) (tokens : List Token) (e : Expr)
    (rest : List Token) : Prop :=
  ∃ turns : List Token, rest.length ≤ turns.length ∧
    (Rules.tower last limit (levels + 1)).expression floor (tokens ++ rest) =
      chain (Rules.tower last limit levels) floor turns e rest

/-- An expression is complete where no operator comes next that reaches the threshold. -/
theorem Continues.expression_eq {levels floor : Nat} {tokens rest : List Token} {e : Expr}
    (h : Continues last limit levels floor tokens e rest) (hbelow : Below floor rest) :
    (Rules.tower last limit (levels + 1)).expression floor (tokens ++ rest) = .ok (e, rest) := by
  obtain ⟨turns, _, he⟩ := h
  rw [he, chain_stop hbelow]

/-- A tower reads a tree off the front of a stream as the grammar does at level `k`. -/
structure ReadAt (last : Token) (limit : Int) (levels k : Nat) (tokens : List Token) (e : Expr)
    (rest : List Token) : Prop where
  /-- Operands are complete by themselves. -/
  operand (h : k = 7) :
    (Rules.tower last limit (levels + 1)).operand (tokens ++ rest) = .ok (e, rest)
  /-- Expressions are, unless an operator of a tighter level comes next. -/
  expression {floor : Nat} (hfloor : floor ≤ k) (hbelow : Below (k + 1) rest) :
    Continues last limit levels floor tokens e rest

/-- A tower refuses a stream as too deep wherever the grammar is at level `k`. -/
structure RefusedAt (last : Token) (limit : Int) (levels k : Nat) (tokens rest : List Token) :
    Prop where
  operand (h : k = 7) : ∃ pos,
    (Rules.tower last limit levels).operand (tokens ++ rest) = reject (.tooDeep limit) (some pos)
  expression {floor : Nat} (hfloor : floor ≤ k) (hbelow : Below (k + 1) rest) : ∃ pos,
    (Rules.tower last limit levels).expression floor (tokens ++ rest) =
      reject (.tooDeep limit) (some pos)

/-- An operand that is read is an expression that goes on with what follows. -/
theorem ReadAt.of_operand {levels : Nat} {tokens rest : List Token} {e : Expr}
    (h : (Rules.tower last limit (levels + 1)).operand (tokens ++ rest) = .ok (e, rest)) :
    ReadAt last limit levels 7 tokens e rest where
  operand _ := h
  expression _ _ := by
    refine ⟨rest, Nat.le_refl _, ?_⟩
    rw [tower_operand] at h
    simp only [Rules.tower, Rules.above, h]

/-- An expression fails with the operand that it begins with. -/
theorem RefusedAt.of_operand {levels : Nat} {tokens rest : List Token}
    (h : ∃ pos, (Rules.tower last limit (levels + 1)).operand (tokens ++ rest) =
      reject (.tooDeep limit) (some pos)) :
    RefusedAt last limit (levels + 1) 7 tokens rest where
  operand _ := h
  expression _ _ := by
    obtain ⟨pos, h⟩ := h
    refine ⟨pos, ?_⟩
    rw [tower_operand, reject] at h
    simp only [Rules.tower, Rules.above, h]
    rfl

/-- Without any level everything is refused. -/
theorem refusedAt_zero (k : Nat) (tokens rest : List Token) :
    RefusedAt last limit 0 k tokens rest where
  operand _ := ⟨_, rfl⟩
  expression _ _ := ⟨_, rfl⟩

/-- More levels than its nesting read what the grammar derives. -/
theorem Derivation.readAt {k : Nat} {tokens : List Token} {e : Expr} (D : Derivation k tokens e)
    {levels : Nat} (hneed : D.need ≤ levels) (rest : List Token) :
    ReadAt last limit levels k tokens e rest := by
  induction D generalizing levels rest with
  | atom h => exact .of_operand (operand_of_atom h rest)
  | @group opening closing tokens e hopening hclosing inner ih =>
      rw [Derivation.need] at hneed
      obtain ⟨levels, rfl⟩ : ∃ n, levels = n + 1 := ⟨levels - 1, by omega⟩
      have hle : inner.need ≤ levels := by omega
      have hbelow (k : Nat) : Below k (closing :: rest) :=
        below_of_kind_ne (by simp [hclosing]) k rest
      have hinner := (ih hle (closing :: rest)).expression (Nat.zero_le 1) (hbelow 2)
      apply ReadAt.of_operand
      rw [tower_operand, List.cons_append, List.cons_append, List.append_assoc,
        List.singleton_append, operand_of_opening hopening, hinner.expression_eq (hbelow 0)]
      exact close_of_closing hclosing e rest
  | unary h operand ih =>
      rw [Derivation.need] at hneed
      obtain ⟨levels, rfl⟩ : ∃ n, levels = n + 1 := ⟨levels - 1, by omega⟩
      apply ReadAt.of_operand
      rw [tower_operand, List.cons_append, operand_of_spells h,
        (ih (by omega) rest).operand rfl]
      rfl
  | loosen hpos hle tighter ih =>
      constructor
      · omega
      · intro floor hfloor hbelow
        exact (ih hneed rest).expression (by omega) (hbelow.mono (by omega))
  | @binary t op k leftTokens rightTokens l r h hlevel left right ihl ihr =>
      rw [Derivation.need] at hneed
      subst hlevel
      have hop := Token.binaryOp?_of_spells h
      obtain ⟨levels, rfl⟩ : ∃ n, levels = n + 1 := ⟨levels - 1, by omega⟩
      constructor
      · have hle := op.level_le
        omega
      · intro floor hfloor hbelow
        have hnext := below_of_spells h (rightTokens ++ rest)
        have hleftNeed : left.need ≤ levels + 1 := by omega
        have hrightNeed : right.need ≤ levels := by omega
        obtain ⟨turns, hturns, hleft⟩ := (ihl hleftNeed _).expression hfloor hnext
        have hright := ((ihr hrightNeed rest).expression (Nat.le_refl _)
          (hbelow.mono (Nat.le_succ _))).expression_eq hbelow
        cases turns with
        | nil => contradiction
        | cons u turns =>
          refine ⟨turns, ?_, ?_⟩
          · simp only [List.length_cons, List.length_append] at hturns
            omega
          · rw [List.append_assoc, List.cons_append, hleft, chain_join hop hfloor, hright]

/-- As many levels as its nesting, or fewer, refuse what the grammar derives. -/
theorem Derivation.refusedAt {k : Nat} {tokens : List Token} {e : Expr}
    (D : Derivation k tokens e) {levels : Nat} (hneed : levels ≤ D.need) (rest : List Token) :
    RefusedAt last limit levels k tokens rest := by
  induction D generalizing levels rest with
  | atom h =>
      obtain rfl := Nat.le_zero.mp hneed
      exact refusedAt_zero 7 _ rest
  | @group opening closing tokens e hopening hclosing inner ih =>
      cases levels with
      | zero => exact refusedAt_zero 7 _ rest
      | succ levels =>
        rw [Derivation.need] at hneed
        have hle : levels ≤ inner.need := by omega
        have hbelow : Below 2 (closing :: rest) := below_of_kind_ne (by simp [hclosing]) 2 rest
        obtain ⟨pos, hinner⟩ := (ih hle (closing :: rest)).expression (Nat.zero_le 1) hbelow
        refine RefusedAt.of_operand ⟨pos, ?_⟩
        rw [tower_operand, List.cons_append, List.cons_append, List.append_assoc,
          List.singleton_append, operand_of_opening hopening, hinner]
        rfl
  | unary h operand ih =>
      cases levels with
      | zero => exact refusedAt_zero 7 _ rest
      | succ levels =>
        rw [Derivation.need] at hneed
        have hle : levels ≤ operand.need := by omega
        obtain ⟨pos, hinner⟩ := (ih hle rest).operand rfl
        refine RefusedAt.of_operand ⟨pos, ?_⟩
        rw [tower_operand, List.cons_append, operand_of_spells h, hinner]
        rfl
  | loosen hpos hle tighter ih =>
      constructor
      · omega
      · intro floor hfloor hbelow
        exact (ih hneed rest).expression (by omega) (hbelow.mono (by omega))
  | @binary t op k leftTokens rightTokens l r h hlevel left right ihl ihr =>
      subst hlevel
      have hop := Token.binaryOp?_of_spells h
      constructor
      · have hle := op.level_le
        omega
      · intro floor hfloor hbelow
        have hnext := below_of_spells h (rightTokens ++ rest)
        rw [List.append_assoc, List.cons_append]
        by_cases hleftNeed : levels ≤ left.need
        · exact (ihl hleftNeed _).expression hfloor hnext
        · rw [Derivation.need] at hneed
          obtain ⟨levels, rfl⟩ : ∃ n, levels = n + 1 := ⟨levels - 1, by omega⟩
          have hrightNeed : levels ≤ right.need := by omega
          have hleftLe : left.need ≤ levels := by omega
          obtain ⟨turns, hturns, hleft⟩ := (left.readAt hleftLe _).expression hfloor hnext
          obtain ⟨pos, hright⟩ := (ihr hrightNeed rest).expression (Nat.le_refl _)
            (hbelow.mono (Nat.le_succ _))
          cases turns with
          | nil => contradiction
          | cons u turns =>
            refine ⟨pos, ?_⟩
            rw [hleft, chain_join hop hfloor, hright]
            rfl

end Criterion.Expr
