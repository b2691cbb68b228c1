import Criterion.Proofs.Rule.Spacing
import Mathlib.Data.List.Find

/-!
# Texts that are joined by blanks

What stands at the front of a text is settled by the characters before the next blank: a run ends
there at the latest, and no operator reaches over it. So the lexer goes over a text, blanks and
another text as over the first text and then over the second, further to the right. It does not
matter in what the first text ends, be it half an operator or a character that begins no piece.
-/

namespace Criterion.Token

variable {c d : Char} {front rest text gap : List Char} {pieces before after : List Piece}
  {failure : Failure}

/-! ## Before a blank -/

private theorem operatorAt?_before_blank (hc : c ∈ blanks) (front rest : List Char) :
    operatorAt? (front ++ c :: rest) = operatorAt? front := by
  refine List.find?_congr fun symbol hsymbol => ?_
  have hno := (mem_operatorSymbols_iff.1 hsymbol).not_mem_of_blank hc
  rw [Bool.eq_iff_iff, List.isPrefixOf_iff_prefix, List.isPrefixOf_iff_prefix]
  exact ⟨fun h => prefix_of_not_mem h hno, fun h => h.trans (List.prefix_append front _)⟩

/-- A run of a class without blanks ends before a blank. -/
theorem takeWhile_before_blank {inClass : Char → Bool} (hc : inClass c = false)
    (front rest : List Char) :
    (front ++ c :: rest).takeWhile inClass = front.takeWhile inClass := by
  have hrun : MaximalRun inClass (front.takeWhile inClass) (front.dropWhile inClass ++ []) := by
    rw [List.append_nil]
    exact maximalRun_takeWhile inClass front
  have heq := (hrun.of_before hc rest).takeWhile_eq
  rwa [← List.append_assoc, List.takeWhile_append_dropWhile] at heq

/-- The same piece is found at the front whatever follows a blank. -/
theorem pieceAt?_before_blank (hc : c ∈ blanks) (d : Char) (front rest : List Char) :
    pieceAt? d (front ++ c :: rest) = pieceAt? d front := by
  have hnumber : isNumberChar c = false := not_inClass_of_blank rfl hc
  have hword : isWordChar c = false := not_inClass_of_blank rfl hc
  have hoperator := operatorAt?_before_blank hc (d :: front) rest
  rw [List.cons_append] at hoperator
  simp only [pieceAt?, takeWhile_before_blank hnumber, takeWhile_before_blank hword, hoperator]

/-- Where a text is stuck it is so whatever follows a blank. -/
theorem Stuck.before_blank (h : Stuck (d :: front)) (hc : c ∈ blanks) (rest : List Char) :
    Stuck (d :: front ++ c :: rest) := by
  rw [← pieceAt?_eq_none_iff] at h
  rw [List.cons_append, ← pieceAt?_eq_none_iff, pieceAt?_before_blank hc, h]

/-- The pieces of a text are pieces whatever follows a blank. -/
theorem Cut.before_blank (h : Cut text pieces front) (hc : c ∈ blanks) (rest : List Char) :
    Cut (text ++ c :: rest) pieces (front ++ c :: rest) := by
  induction h with
  | done => exact .done _
  | @piece text tail _ piece _ htext hfront _ ih =>
    rw [← List.append_nil tail] at hfront
    rw [htext, List.append_assoc]
    exact .piece rfl (hfront.of_before hc rest) ih

/-! ## Offences -/

/-- The first offence of a text is that of what begins with the text and a blank. -/
theorem Segmentation.offence_before_blank (h : Segmentation text pieces front)
    (hoffence : Offence pieces front failure) (hc : c ∈ blanks) (rest : List Char) :
    ∃ pieces' front', Segmentation (text ++ c :: rest) pieces' front' ∧
      Offence pieces' front' failure := by
  obtain ⟨hcut, hstuck⟩ := h
  have hcut' := hcut.before_blank hc rest
  cases hoffence with
  | fault hpieces hbefore hfault =>
    obtain ⟨others, last, hothers, hlast⟩ := exists_segmentation (front ++ c :: rest)
    refine ⟨pieces ++ others, last, ⟨hcut'.append hothers, hlast⟩, ?_⟩
    rw [hpieces, List.append_assoc]
    exact .fault rfl hbefore hfault
  | character hpieces hrest =>
    subst hrest
    exact ⟨pieces, _, ⟨hcut', hstuck.before_blank hc rest⟩, .character hpieces rfl⟩

/-- Pieces without fault that come before move an offence to the right. -/
theorem Offence.behind (h : Offence after rest failure) (hbefore : ∀ p ∈ before, p.fault? = none) :
    Offence (before ++ after) rest (failure.moved (· + extent before)) := by
  cases h with
  | @fault first others piece cause hpieces hfirst hfault =>
    have hpos : ((extent first : Int) + extent before) = extent (before ++ first) := by
      rw [extent_append]
      omega
    rw [Failure.moved, Option.map_some, hpos, hpieces, ← List.append_assoc]
    exact .fault rfl (List.forall_mem_append.2 ⟨hbefore, hfirst⟩) hfault
  | character hpieces hrest =>
    have hpos : ((extent after : Int) + extent before) = extent (before ++ after) := by
      rw [extent_append]
      omega
    rw [Failure.moved, Option.map_some, hpos]
    exact .character (List.forall_mem_append.2 ⟨hbefore, hpieces⟩) hrest

/-! ## The outcome -/

section Source

variable {a b w : String} {maxLength : Int} {tokens : List Token}

/-- The tokens of a source end in the one for its end. -/
theorem ofSource_dropLast (h : ofSource a maxLength = .ok tokens) :
    tokens = tokens.dropLast ++ [⟨.eof, .text "", a.length⟩] := by
  obtain ⟨pieces, rest, hseg⟩ := exists_segmentation a.toList
  obtain ⟨_, _, rfl⟩ := (ofSource_eq_ok_iff (length_le_of_ofSource h) hseg).1 h
  rw [List.dropLast_concat]

/-- Two texts with blanks between them are cut into the pieces of both and the blanks. -/
theorem segmentation_joined (hne : w ≠ "") (hw : ∀ c ∈ w.toList, c ∈ blanks)
    (hcut : Cut a.toList before []) (hseg : Segmentation b.toList after rest) :
    Segmentation (a ++ w ++ b).toList (before ++ blankPieces w.toList ++ after) rest := by
  obtain ⟨c, gap, hcons⟩ := List.exists_cons_of_ne_nil (mt String.toList_eq_nil_iff.1 hne)
  have hfirst := hcut.before_blank (hw c (hcons ▸ List.mem_cons_self)) (gap ++ b.toList)
  rw [List.nil_append, ← List.cons_append, ← hcons] at hfirst
  rw [String.toList_append, String.toList_append, List.append_assoc, List.append_assoc]
  exact ⟨hfirst.append ((cut_blankPieces hw b.toList).append hseg.1), hseg.2⟩

/-- A text that fails does so in the same way when blanks and more come to stand behind it. -/
theorem ofSource_joined_of_error (hne : w ≠ "") (hw : ∀ c ∈ w.toList, c ∈ blanks)
    (hlength : ((a ++ w ++ b).length : Int) ≤ maxLength) (ha : a.length ≤ maxLength)
    (h : ofSource a maxLength = .error failure) :
    ofSource (a ++ w ++ b) maxLength = .error failure := by
  obtain ⟨c, gap, hcons⟩ := List.exists_cons_of_ne_nil (mt String.toList_eq_nil_iff.1 hne)
  obtain ⟨pieces, rest, hseg⟩ := exists_segmentation a.toList
  have hoffence := (ofSource_eq_error_iff ha hseg).1 h
  obtain ⟨pieces', rest', hseg', hoffence'⟩ := hseg.offence_before_blank hoffence
    (hw c (hcons ▸ List.mem_cons_self)) (gap ++ b.toList)
  refine ofSource_of_offence hlength ?_ hoffence'
  rwa [String.toList_append, String.toList_append, hcons, List.append_assoc, List.cons_append]

/-- Two texts with blanks between them have the tokens of the first without its end, and then those
of the second at positions that are raised by the length of what comes before. If the first text
fails, so does the whole in the same way, and else it fails as the second does, at a position that
is raised, too. -/
theorem ofSource_joined (hne : w ≠ "") (hw : ∀ c ∈ w.toList, c ∈ blanks)
    (hlength : (a.length + w.length + b.length : Nat) ≤ maxLength) :
    (ofSource (a ++ w ++ b) maxLength = do
      let before ← ofSource a maxLength
      let after ← (ofSource b maxLength).mapError (Failure.moved (· + (a.length + w.length : Nat)))
      return before.dropLast ++ after.map (Token.moved (· + (a.length + w.length : Nat)))) ∧
    ∀ tokens, ofSource a maxLength = .ok tokens →
      tokens = tokens.dropLast ++ [⟨.eof, .text "", a.length⟩] := by
  refine ⟨?_, fun tokens => ofSource_dropLast⟩
  have hwhole : ((a ++ w ++ b).length : Int) ≤ maxLength := by
    rwa [String.length_append, String.length_append]
  have ha : (a.length : Int) ≤ maxLength := by omega
  have hb : (b.length : Int) ≤ maxLength := by omega
  cases hbefore : ofSource a maxLength with
  | error failure => exact ofSource_joined_of_error hne hw hwhole ha hbefore
  | ok tokens =>
    obtain ⟨pieces, rest, hseg⟩ := exists_segmentation a.toList
    obtain ⟨rfl, hfaultless, rfl⟩ := (ofSource_eq_ok_iff ha hseg).1 hbefore
    obtain ⟨pieces', rest', hseg'⟩ := exists_segmentation b.toList
    have hjoined := segmentation_joined hne hw hseg.1 hseg'
    have hfront : ∀ p ∈ pieces ++ blankPieces w.toList, p.fault? = none :=
      List.forall_mem_append.2 ⟨hfaultless, fun p => fault?_of_mem_blankPieces⟩
    have hextent : extent (pieces ++ blankPieces w.toList) = a.length + w.length := by
      rw [extent_append, extent_blankPieces, ← hseg.1.length_eq, String.length_toList,
        String.length_toList]
    cases hafter : ofSource b maxLength with
    | error failure =>
      have hoffence := ((ofSource_eq_error_iff hb hseg').1 hafter).behind hfront
      rw [hextent] at hoffence
      exact ofSource_of_offence hwhole hjoined hoffence
    | ok tokens' =>
      obtain ⟨rfl, hfaultless', rfl⟩ := (ofSource_eq_ok_iff hb hseg').1 hafter
      have hmoved : (tokensOf 0 pieces').map (Token.moved (· + (a.length + w.length : Nat))) =
          tokensOf (0 + (a.length + w.length)) pieces' := hseg'.1.tokensOf_moved fun k _ _ => rfl
      have hend : Token.moved (· + (a.length + w.length : Nat)) ⟨.eof, .text "", b.length⟩ =
          ⟨.eof, .text "", (a ++ w ++ b).length⟩ := by
        rw [Token.moved, String.length_append, String.length_append, ← Int.natCast_add,
          Nat.add_comm]
      rw [ofSource_of_faultless hwhole hjoined.1 (List.forall_mem_append.2 ⟨hfront, hfaultless'⟩),
        tokensOf_append, tokensOf_append, tokensOf_blankPieces, List.append_nil, hextent, ← hmoved,
        ← hend, List.append_assoc, ← List.map_singleton, ← List.map_append]
      simp only [Except.mapError, bind, Except.bind, pure, Except.pure, List.dropLast_concat]

/-- Two halves of an operator stay two operators when a blank stands between them, whereas without
it they are one. -/
theorem halves_joined :
    " " ≠ "" ∧ (∀ c ∈ " ".toList, c ∈ blanks) ∧
      ((("x !" : String).length + (" " : String).length + ("== y" : String).length : Nat) : Int) ≤
        8 ∧
      ofSource ("x !" ++ " " ++ "== y") 8 = .ok [⟨.ident, .text "x", 0⟩, ⟨.operator, .text "!", 2⟩,
        ⟨.operator, .text "==", 4⟩, ⟨.ident, .text "y", 7⟩, ⟨.eof, .text "", 8⟩] ∧
      ofSource ("x !" ++ "== y") 8 = .ok [⟨.ident, .text "x", 0⟩, ⟨.operator, .text "!==", 2⟩,
        ⟨.ident, .text "y", 6⟩, ⟨.eof, .text "", 7⟩] := by
  have hne : " " ≠ "" := by decide
  have hw : ∀ c ∈ " ".toList, c ∈ blanks := List.forall_mem_singleton.2 (by decide)
  have hlength : ((("x !" : String).length + (" " : String).length + ("== y" : String).length :
    Nat) : Int) ≤ 8 := by decide
  exact ⟨hne, hw, hlength, (ofSource_joined hne hw hlength).1.trans rfl, rfl⟩

end Source

end Criterion.Token
