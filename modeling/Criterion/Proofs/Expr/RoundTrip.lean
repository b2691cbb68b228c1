import Criterion.Proofs.Expr.Acceptance
import Criterion.Proofs.Expr.Lexemes

/-!
# Canonical texts are read back

The pieces of a canonical text are without fault and their tokens derive the tree that was written.
Only the nesting can stand in the way of reading the text back: the parentheses that the printer
puts around each binary operator make a level of their own.
-/

namespace Criterion.Expr

open Token Binary64

variable {e : Expr} {source : String} {maxLength maxDepth : Int}

/-- The nesting of a canonical text. A prefix operator takes one level, and so do the parentheses
around a binary one, whose right operand lies one level deeper. -/
def nesting : Expr → Nat
  | number _ | boolean _ | ident _ => 0
  | unary _ operand => 1 + operand.nesting
  | binary _ left right => 1 + max left.nesting (1 + right.nesting)

/-! ## The tokens -/

/-- The pieces of a readable tree are without fault. -/
theorem Readable.faultless (h : e.Readable) : ∀ p ∈ e.lexemes, p.fault? = none := by
  induction e with
  | number x =>
      obtain ⟨text, htext, hrun, _⟩ := exists_run_displayText h.1 h.2
      simp [lexemes, Piece.fault?, htext, hrun.points]
  | boolean b =>
      have hfree : truthText b ∉ reservedNames := by cases b <;> decide
      simp [lexemes, Piece.fault?, hfree]
  | ident name => simp [lexemes, Piece.fault?, h.free]
  | unary op operand ih =>
      rw [lexemes, List.forall_mem_cons]
      exact ⟨rfl, ih h⟩
  | binary op left right ihl ihr =>
      simp only [lexemes, List.forall_mem_cons, List.forall_mem_append]
      exact ⟨rfl, ihl h.1, rfl, rfl, rfl, ihr h.2, rfl, fun p hp => by contradiction⟩

theorem exists_spells (symbol : String) (pos : Nat) :
    ∃ t, Placed.token? ⟨pos, .operator, symbol.toList⟩ = some t ∧ t.Spells symbol := by
  refine ⟨⟨.operator, .text symbol, pos⟩, ?_, rfl, rfl⟩
  simp [Placed.token?]

/-- The tokens of a binary operator are those of its operands around it, in parentheses. -/
theorem tokensOf_lexemes_binary (pos : Nat) (op : BinaryOp) (left right : Expr) :
    ∃ (t : Token) (middle close : Nat), t.Spells op.symbol ∧
      tokensOf pos (binary op left right).lexemes = ⟨.opening, .text "(", pos⟩ ::
        (tokensOf (pos + 1) left.lexemes ++ t :: tokensOf middle right.lexemes) ++
          [⟨.closing, .text ")", close⟩] := by
  obtain ⟨t, ht, hspells⟩ := exists_spells op.symbol (pos + 1 + extent left.lexemes + 1)
  let middle := pos + 1 + extent left.lexemes + 1 + op.symbol.toList.length + 1
  refine ⟨t, middle, middle + extent right.lexemes, hspells, ?_⟩
  have hblank (p : Nat) : Placed.token? ⟨p, .blank, [' ']⟩ = none := rfl
  have hopening : Placed.token? ⟨pos, .opening, ['(']⟩ = some ⟨.opening, .text "(", pos⟩ := rfl
  have hclosing (p : Nat) : Placed.token? ⟨p, .closing, [')']⟩ = some ⟨.closing, .text ")", p⟩ :=
    rfl
  simp only [lexemes, tokensOf_cons, tokensOf_append, ht, hblank, hopening, hclosing,
    Option.toList_some, Option.toList_none, List.nil_append, List.cons_append, List.append_assoc,
    List.length_singleton]
  rfl

/-- The tokens of a readable tree derive it, with the nesting of the tree. -/
theorem Readable.exists_derivation (h : e.Readable) (pos : Nat) :
    ∃ D : Derivation 7 (tokensOf pos e.lexemes) e, D.need = e.nesting := by
  induction e generalizing pos with
  | number x =>
      obtain ⟨text, htext, _, hback⟩ := exists_run_displayText h.1 h.2
      have htokens : tokensOf pos (number x).lexemes = [⟨.number, .float x, pos⟩] := by
        simp [tokensOf, place, lexemes, Placed.token?, htext, hback]
      rw [htokens]
      exact ⟨.atom (.number x pos), rfl⟩
  | boolean b =>
      have htokens : tokensOf pos (boolean b).lexemes = [⟨.boolean, .boolean b, pos⟩] := by
        cases b <;> rfl
      rw [htokens]
      exact ⟨.atom (.boolean b pos), rfl⟩
  | ident name =>
      have htokens : tokensOf pos (ident name).lexemes = [⟨.ident, .text name, pos⟩] := by
        simp [tokensOf, place, lexemes, Placed.token?, h.ne_true, h.ne_false]
      rw [htokens]
      exact ⟨.atom (.ident name pos), rfl⟩
  | unary op operand ih =>
      obtain ⟨t, ht, hspells⟩ := exists_spells op.symbol pos
      obtain ⟨D, hneed⟩ := ih h (pos + op.symbol.toList.length)
      rw [lexemes, tokensOf_cons, ht]
      exact ⟨.unary hspells D, congrArg (1 + ·) hneed⟩
  | binary op left right ihl ihr =>
      have hlevel := op.level_le
      obtain ⟨t, middle, close, hspells, htokens⟩ := tokensOf_lexemes_binary pos op left right
      obtain ⟨L, hL⟩ := ihl h.1 (pos + 1)
      obtain ⟨R, hR⟩ := ihr h.2 middle
      obtain ⟨L', hL'⟩ := L.exists_loosened op.one_le_level (by omega) (Nat.le_refl 7)
      obtain ⟨R', hR'⟩ := R.exists_loosened (k := op.level + 1) (by omega) (by omega)
        (Nat.le_refl 7)
      obtain ⟨D, hD⟩ := (Derivation.binary hspells rfl L' R').exists_loosened (Nat.le_refl 1)
        op.one_le_level (by omega)
      rw [htokens]
      refine ⟨.group rfl rfl D, ?_⟩
      rw [Derivation.need, hD, Derivation.need, hL', hR', hL, hR, nesting]

/-! ## Reading back -/

/-- The canonical text of a tree that is parsed, whose numbers are all plain, is an expression with
that tree for every limit of length that admits it and every limit of depth that admits its
nesting. For a lower limit of depth it is refused as too deep. -/
theorem ofSource_render (h : Expr.ofSource source maxLength maxDepth = .ok e)
    (hplain : ∀ x ∈ e.numbers, IsPlain x) {maxLength' maxDepth' : Int}
    (hlength : (render e).length ≤ maxLength') (hpos : 1 ≤ maxDepth')
    (hle : maxDepth' ≤ deepestLimit) :
    (e.nesting ≤ maxDepth' → Expr.ofSource (render e) maxLength' maxDepth' = .ok e) ∧
      (maxDepth' < e.nesting →
        ∃ pos, Expr.ofSource (render e) maxLength' maxDepth' =
          reject (.tooDeep maxDepth') (some pos)) := by
  obtain ⟨hsign, hnames⟩ := leaves_of_ofSource h
  have hreadable := readable_of_leaves hplain hsign hnames
  have hcut : Cut (render e).toList e.lexemes [] := by
    have hcut := hreadable.cut follows_nil
    rwa [List.append_nil, ← toList_text, ← render_eq_text] at hcut
  obtain ⟨D, hD⟩ := hreadable.exists_derivation 0
  obtain ⟨D', hD'⟩ := D.exists_loosened (Nat.le_refl 1) (by decide) (Nat.le_refl 7)
  have hlast : (⟨.eof, .text "", (render e).length⟩ : Token).kind = .eof := rfl
  rw [Expr.ofSource, ofSource_of_faultless hlength hcut hreadable.faultless, ← hD, ← hD']
  exact ⟨ofTokens_of_need_le hlast hpos hle D', ofTokens_of_lt_need hlast hpos hle D'⟩

/-- The tree of `!-a == 0.5 - -2`, where signs stand next to one another. -/
def signsTree : Expr :=
  .binary .equal (.unary .not (.unary .negate (.ident "a")))
    (.binary .subtract (.number (Decimal.toFloat false ⟨5, -1⟩))
      (.unary .negate (.number (Decimal.toFloat false ⟨2, 0⟩))))

/-- The canonical text of the tree nests to five levels, of which its source needs three. -/
theorem signsTree_reads_back :
    Expr.ofSource "!-a == 0.5 - -2" 15 3 = .ok signsTree ∧
      (∀ x ∈ signsTree.numbers, IsPlain x) ∧ ((render signsTree).length : Int) ≤ 19 ∧
      (1 : Int) ≤ 4 ∧ (4 : Int) ≤ deepestLimit ∧ (1 : Int) ≤ 5 ∧ (5 : Int) ≤ deepestLimit ∧
      Expr.ofSource (render signsTree) 19 5 = .ok signsTree ∧
      ∃ pos, Expr.ofSource (render signsTree) 19 4 = reject (.tooDeep 4) (some pos) := by
  have hsource : Expr.ofSource "!-a == 0.5 - -2" 15 3 = .ok signsTree := rfl
  have hplain : ∀ x ∈ signsTree.numbers, IsPlain x := by
    have hhalf : IsPlain (Decimal.toFloat false ⟨5, -1⟩) :=
      ⟨false, unitsPerOne / 2, by decide +kernel, .inr ⟨rfl, by decide +kernel, by decide +kernel⟩⟩
    have htwo : IsPlain (Decimal.toFloat false ⟨2, 0⟩) :=
      ⟨false, 2 * unitsPerOne, by decide +kernel, .inr ⟨rfl, by decide +kernel, by decide +kernel⟩⟩
    intro x hx
    rcases List.mem_pair.1 hx with rfl | rfl
    · exact hhalf
    · exact htwo
  have hlength : ((render signsTree).length : Int) ≤ 19 := by
    rw [render_eq_text]
    decide +kernel
  have hfour : (4 : Int) ≤ deepestLimit := by decide
  have hfive : (5 : Int) ≤ deepestLimit := by decide
  exact ⟨hsource, hplain, hlength, by decide, hfour, by decide, hfive,
    (ofSource_render hsource hplain hlength (by decide) hfive).1 (by decide),
    (ofSource_render hsource hplain hlength (by decide) hfour).2 (by decide)⟩

end Criterion.Expr
