import Criterion.Proofs.Expr.Acceptance
import Criterion.Proofs.Token.LongestMatch
import Criterion.Rule

/-!
# Which sources are expressions

Every token that the lexer makes is well typed, and only the last one ends the stream. A source is
therefore an expression exactly if its pieces are without fault and their tokens have a derivation
whose nesting is within the limit of depth.
-/

namespace Criterion.Expr

open Token

variable {source : String} {maxLength maxDepth : Int} {e : Expr} {pieces : List Token.Piece}

/-- The tokens of pieces are well typed and do not end the stream. -/
theorem wellTyped_of_mem_tokensOf {t : Token} {pos : Nat} (ht : t ∈ tokensOf pos pieces) :
    t.WellTyped ∧ t.kind ≠ .eof := by
  obtain ⟨q, _, hq⟩ := List.mem_filterMap.1 ht
  cases lexeme_of_token? hq with
  | number x => exact ⟨⟨x, rfl⟩, nofun⟩
  | boolean b => exact ⟨⟨b, rfl⟩, nofun⟩
  | ident s | operator s => exact ⟨⟨s, rfl⟩, nofun⟩
  | opening s | closing s => exact ⟨trivial, nofun⟩

/-- What the lexer makes of a source is a well-typed stream that ends in its only end token. -/
theorem exists_eq_append_eof {tokens : List Token}
    (h : Token.ofSource source maxLength = .ok tokens) :
    ∃ before last, tokens = before ++ [last] ∧ last.kind = .eof ∧
      ∀ t ∈ before, t.WellTyped ∧ t.kind ≠ .eof := by
  obtain ⟨pieces, rest, hseg⟩ := exists_segmentation source.toList
  obtain ⟨_, _, rfl⟩ := (Token.ofSource_eq_ok_iff (length_le_of_ofSource h) hseg).1 h
  exact ⟨_, _, rfl, rfl, fun t ht => wellTyped_of_mem_tokensOf ht⟩

/-- A source that is an expression is cut into pieces without fault, whose tokens the grammar
derives within the limit of depth. -/
theorem pieces_of_ofSource (h : Expr.ofSource source maxLength maxDepth = .ok e) :
    source.length ≤ maxLength ∧
      ∃ pieces, Cut source.toList pieces [] ∧ (∀ p ∈ pieces, p.fault? = none) ∧
        ∃ D : Derivation 1 (tokensOf 0 pieces) e, D.need ≤ maxDepth := by
  have hlength : source.length ≤ maxLength := by
    refine Int.not_lt.1 fun hlong => ?_
    rw [Expr.ofSource, Token.ofSource, if_pos hlong] at h
    contradiction
  obtain ⟨pieces, rest, hseg⟩ := exists_segmentation source.toList
  rcases faultless_or_offence pieces rest with ⟨rfl, hpieces⟩ | ⟨failure, hoffence⟩
  · have hlast : (⟨.eof, .text "", source.length⟩ : Token).kind = .eof := rfl
    have htokens : ∀ t ∈ tokensOf 0 pieces, t.WellTyped ∧ t.kind ≠ .eof :=
      fun t ht => wellTyped_of_mem_tokensOf ht
    rw [Expr.ofSource, ofSource_of_faultless hlength hseg.1 hpieces] at h
    obtain ⟨D, hneed⟩ := exists_derivation_of_ofTokens hlast htokens h
    exact ⟨hlength, pieces, hseg.1, hpieces, D, hneed⟩
  · rw [Expr.ofSource, ofSource_of_offence hlength hseg hoffence] at h
    contradiction

/-- A source within the limits is an expression exactly if it is cut into pieces without fault
whose tokens the grammar derives within the limit of depth. -/
theorem ofSource_eq_ok_iff (h : source.length ≤ maxLength) (hpos : 1 ≤ maxDepth)
    (hle : maxDepth ≤ deepestLimit) :
    Expr.ofSource source maxLength maxDepth = .ok e ↔
      ∃ pieces, Cut source.toList pieces [] ∧ (∀ p ∈ pieces, p.fault? = none) ∧
        ∃ D : Derivation 1 (tokensOf 0 pieces) e, D.need ≤ maxDepth := by
  constructor
  · intro hsource
    exact (pieces_of_ofSource hsource).2
  · rintro ⟨pieces, hcut, hpieces, D, hneed⟩
    have hlast : (⟨.eof, .text "", source.length⟩ : Token).kind = .eof := rfl
    rw [Expr.ofSource, ofSource_of_faultless h hcut hpieces]
    exact ofTokens_of_need_le hlast hpos hle D hneed

end Criterion.Expr
