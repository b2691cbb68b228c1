import Criterion.Expr.Parser

/-!
# The grammar of expressions

Six levels of binary operators stand over the operands, each of them left-associative, and
parentheses leave no node. A derivation records how a stream of tokens is read at a level, so that
what a reading costs, its nesting, is a function of the derivation. Nothing here mentions the
parser, its threshold or its depth counter.
-/

namespace Criterion

/-- A token holds a datum of the type that its kind asks for. Parentheses and end tokens may hold
anything, since their kind says all. The tokens that the lexer makes are well typed. -/
def Token.WellTyped (t : Token) : Prop :=
  match t.kind with
  | .number => ∃ x, t.value = .float x
  | .boolean => ∃ b, t.value = .boolean b
  | .ident | .operator => ∃ s, t.value = .text s
  | .opening | .closing | .eof => True

/-- A token is the operator with a given spelling. -/
def Token.Spells (t : Token) (symbol : String) : Prop :=
  t.kind = .operator ∧ t.value = .text symbol

/-- A binary operator has one of the six levels. -/
theorem BinaryOp.one_le_level (op : BinaryOp) : 1 ≤ op.level := by
  cases op <;> decide

/-- No binary operator binds as tight as the operands themselves. -/
theorem BinaryOp.level_le (op : BinaryOp) : op.level ≤ 6 := by
  cases op <;> decide

namespace Expr

/-- The tokens that are expressions by themselves, and their trees. -/
inductive Atom : Token → Expr → Prop where
  | number (x : Float) (pos : Int) : Atom ⟨.number, .float x, pos⟩ (.number x)
  | boolean (b : Bool) (pos : Int) : Atom ⟨.boolean, .boolean b, pos⟩ (.boolean b)
  | ident (name : String) (pos : Int) : Atom ⟨.ident, .text name, pos⟩ (.ident name)

/-- The derivations of the grammar. Levels 1 to 6 are those of the binary operators, and level 7
holds the operands. -/
inductive Derivation : Nat → List Token → Expr → Type where
  /-- A literal or a variable. -/
  | atom {t : Token} {e : Expr} (h : Atom t e) : Derivation 7 [t] e
  /-- An expression in parentheses, which leave no node. -/
  | group {opening closing : Token} {tokens : List Token} {e : Expr}
      (hopening : opening.kind = .opening) (hclosing : closing.kind = .closing)
      (inner : Derivation 1 tokens e) : Derivation 7 (opening :: tokens ++ [closing]) e
  /-- A prefix operator before an operand. -/
  | unary {t : Token} {op : UnaryOp} {tokens : List Token} {e : Expr} (h : t.Spells op.symbol)
      (operand : Derivation 7 tokens e) : Derivation 7 (t :: tokens) (.unary op e)
  /-- What is read at a level is also read at the level below. -/
  | loosen {k : Nat} {tokens : List Token} {e : Expr} (hpos : 1 ≤ k) (hle : k ≤ 6)
      (tighter : Derivation (k + 1) tokens e) : Derivation k tokens e
  /-- An operator of a level takes its own level on the left and the next one on the right. -/
  | binary {t : Token} {op : BinaryOp} {k : Nat} {leftTokens rightTokens : List Token}
      {l r : Expr} (h : t.Spells op.symbol) (hlevel : op.level = k)
      (left : Derivation k leftTokens l) (right : Derivation (k + 1) rightTokens r) :
      Derivation k (leftTokens ++ t :: rightTokens) (.binary op l r)

/-- The nesting of a derivation. A group, the operand of a prefix operator and the right operand
of a binary one each lie one level deeper; a left operand does not. -/
def Derivation.need {k : Nat} {tokens : List Token} {e : Expr} : Derivation k tokens e → Nat
  | atom _ => 0
  | group _ _ inner => 1 + inner.need
  | unary _ operand => 1 + operand.need
  | loosen _ _ tighter => tighter.need
  | binary _ _ left right => max left.need (1 + right.need)

/-- A stream of tokens has a given tree at a level of the grammar. -/
def Derives (k : Nat) (tokens : List Token) (e : Expr) : Prop := Nonempty (Derivation k tokens e)

/-- A chain of operators of one level over literals and variables, without any parentheses. -/
inductive FlatChain (k : Nat) : List Token → Expr → Prop where
  | atom {t : Token} {e : Expr} (h : Atom t e) : FlatChain k [t] e
  | snoc {t u : Token} {op : BinaryOp} {tokens : List Token} {l r : Expr}
      (chain : FlatChain k tokens l) (h : t.Spells op.symbol) (hlevel : op.level = k)
      (hatom : Atom u r) : FlatChain k (tokens ++ [t, u]) (.binary op l r)

/-- What is read at a level is read at every level below it, at no further cost. -/
theorem Derivation.exists_loosened {k m : Nat} {tokens : List Token} {e : Expr} (hk : 1 ≤ k)
    (hkm : k ≤ m) (hm : m ≤ 7) (D : Derivation m tokens e) :
    ∃ D' : Derivation k tokens e, D'.need = D.need := by
  induction hkm with
  | refl => exact ⟨D, rfl⟩
  | step hkm ih => exact ih (by omega) (.loosen (Nat.le_trans hk hkm) (by omega) D)

/-- The tree of a stream does not depend on the level it is read at. -/
theorem Derives.loosen {k m : Nat} {tokens : List Token} {e : Expr} (hk : 1 ≤ k) (hkm : k ≤ m)
    (hm : m ≤ 7) (h : Derives m tokens e) : Derives k tokens e := by
  obtain ⟨D⟩ := h
  obtain ⟨D', _⟩ := D.exists_loosened hk hkm hm
  exact ⟨D'⟩

/-- No end token is part of an expression. -/
theorem Derivation.kind_ne_eof {k : Nat} {tokens : List Token} {e : Expr}
    (D : Derivation k tokens e) : ∀ t ∈ tokens, t.kind ≠ .eof := by
  induction D with
  | atom h => cases h <;> simp
  | group hopening hclosing _ ih =>
      simp only [List.cons_append, List.mem_cons, List.mem_append, List.not_mem_nil, or_false]
      rintro t (rfl | ht | rfl)
      · simp [hopening]
      · exact ih t ht
      · simp [hclosing]
  | unary h _ ih =>
      rw [List.forall_mem_cons]
      exact ⟨by simp [h.1], ih⟩
  | loosen _ _ _ ih => exact ih
  | binary h _ _ _ ihl ihr =>
      rw [List.forall_mem_append, List.forall_mem_cons]
      exact ⟨ihl, by simp [h.1], ihr⟩

/-- What is picked from the tokens of an expression is what its leaves hold, in their order, if
nothing is picked from operators and parentheses. -/
theorem Derivation.filterMap_eq {α : Type} {pick : Token → Option α} {leaves : Expr → List α}
    (hatom : ∀ t e, Atom t e → (pick t).toList = leaves e)
    (hother : ∀ t : Token, t.kind = .opening ∨ t.kind = .closing ∨ t.kind = .operator →
      pick t = none)
    (hunary : ∀ op operand, leaves (.unary op operand) = leaves operand)
    (hbinary : ∀ op l r, leaves (.binary op l r) = leaves l ++ leaves r)
    {k : Nat} {tokens : List Token} {e : Expr} (D : Derivation k tokens e) :
    tokens.filterMap pick = leaves e := by
  induction D with
  | @atom t e h =>
      rw [← hatom t e h, List.filterMap_cons]
      cases pick t <;> rfl
  | @group opening closing tokens e hopening hclosing _ ih =>
      simp only [List.cons_append, List.filterMap_cons, hother opening (.inl hopening),
        List.filterMap_append, hother closing (.inr (.inl hclosing)), List.filterMap_nil,
        List.append_nil, ih]
  | @unary t op tokens e h _ ih =>
      simp only [List.filterMap_cons, hother t (.inr (.inr h.1)), hunary, ih]
  | loosen _ _ _ ih => exact ih
  | @binary t op k leftTokens rightTokens l r h _ _ _ ihl ihr =>
      simp only [List.filterMap_append, List.filterMap_cons, hother t (.inr (.inr h.1)), hbinary,
        ihl, ihr]

/-- A flat chain of a level is read at that level and nests at most once, however long it is. -/
theorem FlatChain.exists_derivation {k : Nat} {tokens : List Token} {e : Expr} (hk : 1 ≤ k)
    (hk' : k ≤ 6) (h : FlatChain k tokens e) : ∃ D : Derivation k tokens e, D.need ≤ 1 := by
  induction h with
  | atom h =>
      obtain ⟨D, hD⟩ := (Derivation.atom h).exists_loosened hk (by omega) (Nat.le_refl 7)
      exact ⟨D, by rw [hD]; exact Nat.zero_le 1⟩
  | snoc _ h hlevel hatom ih =>
      obtain ⟨left, hleft⟩ := ih
      obtain ⟨right, hright⟩ := (Derivation.atom hatom).exists_loosened (k := k + 1)
        (by omega) (by omega) (Nat.le_refl 7)
      refine ⟨.binary h hlevel left right, ?_⟩
      rw [Derivation.need, hright]
      exact Nat.max_le.mpr ⟨hleft, Nat.le_refl 1⟩

/-- A flat chain of whatever level is an expression that nests at most once. -/
theorem FlatChain.exists_derivation_one {k : Nat} {tokens : List Token} {e : Expr}
    (h : FlatChain k tokens e) : ∃ D : Derivation 1 tokens e, D.need ≤ 1 := by
  cases h with
  | atom h =>
      obtain ⟨D, hD⟩ := (Derivation.atom h).exists_loosened (Nat.le_refl 1) (by decide)
        (Nat.le_refl 7)
      exact ⟨D, by rw [hD]; exact Nat.zero_le 1⟩
  | @snoc t u op _ _ _ chain h hlevel hatom =>
      subst hlevel
      have hle := op.level_le
      obtain ⟨D, hD⟩ :=
        (FlatChain.snoc chain h rfl hatom).exists_derivation op.one_le_level hle
      obtain ⟨D', hD'⟩ := D.exists_loosened (Nat.le_refl 1) op.one_le_level (by omega)
      exact ⟨D', by rw [hD']; exact hD⟩

end Expr

end Criterion
