import Criterion.Proofs.Token.LongestMatch

/-!
# Blanks between pieces

Blanks can be put between any two pieces of a text, also between two that touch. What follows a
piece decides where it ends: a run ends before a character of another class, and an operator where
no longer one covers it. A blank belongs to no class of runs and to no operator, so that a piece
still ends where it did, and the pieces behind the blanks do not see them at all.
-/

namespace Criterion.Token

/-- The pieces that blanks are cut into, each on its own. -/
def blankPieces (gap : List Char) : List Piece := gap.map fun c => ⟨.blank, [c]⟩

variable {c : Char} {gap front text rest rest' run : List Char} {piece : Piece}
  {before after pieces : List Piece} {inClass : Char → Bool}

/-! ## Pieces that are found -/

theorem stuck_nil : Stuck [] := by
  intro piece rest htext hfront
  exact hfront.text_ne_nil (List.append_eq_nil_iff.1 htext.symm).1

/-- A cut can begin with the piece that is found at the front. -/
theorem Cut.of_pieceAt? (h : pieceAt? c text = some piece) (htext : c :: text = piece.text ++ rest)
    (hcut : Cut rest pieces rest') : Cut (c :: text) (piece :: pieces) rest' := by
  obtain ⟨tail, hfront, hpiece⟩ := front_of_pieceAt? h
  obtain rfl := List.append_cancel_left (hfront.symm.trans htext)
  exact .piece htext hpiece hcut

/-! ## What stands before a blank -/

/-- No operator has a blank in it. -/
theorem IsOperator.not_mem_of_blank {symbol : List Char} (h : IsOperator symbol)
    (hc : c ∈ blanks) : c ∉ symbol := by
  have hlisted : (operatorSymbols.map String.toList).all
      (fun symbol => symbol.all fun c => !Text.isTokenBlank c) = true := rfl
  intro hmem
  have hno := List.all_eq_true.1 (List.all_eq_true.1 hlisted symbol (mem_operatorSymbols_iff.2 h))
    c hmem
  rw [mem_blanks_iff.1 hc] at hno
  contradiction

/-- A class without the six blanks has no blank in it. -/
theorem not_inClass_of_blank (h : (blanks.all fun c => !inClass c) = true) (hc : c ∈ blanks) :
    inClass c = false := by
  simpa using List.all_eq_true.1 h c hc

/-- A run that is maximal stays so when a character of no such class comes to stand behind it, or
behind more of what followed it. -/
theorem MaximalRun.of_before (h : MaximalRun inClass run (front ++ rest)) (hc : inClass c = false)
    (rest' : List Char) : MaximalRun inClass run (front ++ c :: rest') := by
  refine ⟨h.1, ?_⟩
  cases front with
  | nil =>
    rintro _ ⟨⟩
    exact hc
  | cons d front => exact h.2

/-- What begins a text and does not hold a character begins the part before it. -/
theorem prefix_of_not_mem {start : List Char} (h : start <+: front ++ c :: rest)
    (hc : c ∉ start) : start <+: front := by
  rcases List.prefix_or_prefix_of_prefix h (List.prefix_append front (c :: rest)) with
    hfront | ⟨beyond, rfl⟩
  · exact hfront
  · cases beyond with
    | nil => simp
    | cons d beyond =>
      obtain ⟨rfl, _⟩ := List.cons_prefix_cons.1 ((List.prefix_append_right_inj front).1 h)
      exact absurd (List.mem_append_right front List.mem_cons_self) hc

/-- A piece keeps its place at the front when a blank comes to stand behind it, or behind more of
what followed it. -/
theorem Front.of_before (h : Front piece (front ++ rest)) (hc : c ∈ blanks) (rest' : List Char) :
    Front piece (front ++ c :: rest') := by
  cases h with
  | blank h => exact .blank h
  | number h hrun => exact .number h (hrun.of_before (not_inClass_of_blank rfl hc) rest')
  | word h hrun => exact .word h (hrun.of_before (not_inClass_of_blank rfl hc) rest')
  | opening => exact .opening
  | closing => exact .closing
  | operator h hlongest =>
    refine .operator h fun longer hlonger hprefix => hlongest longer hlonger ?_
    rw [← List.append_assoc] at hprefix ⊢
    exact (prefix_of_not_mem hprefix (hlonger.not_mem_of_blank hc)).trans
      (List.prefix_append _ rest)

/-- The pieces of a cut stay its pieces when blanks come to stand behind them. -/
theorem Cut.of_before (hcut : Cut text before rest) (hgap : ∀ c ∈ gap, c ∈ blanks) :
    Cut (before.flatMap Piece.text ++ (gap ++ rest)) before (gap ++ rest) := by
  cases gap with
  | nil => rwa [List.nil_append, ← hcut.text_eq]
  | cons c gap =>
    have hc := hgap c List.mem_cons_self
    induction hcut with
    | done => exact .done _
    | @piece text middle last piece pieces htext hfront hcut ih =>
      rw [hcut.text_eq] at hfront
      rw [List.flatMap_cons, List.append_assoc]
      exact .piece rfl (hfront.of_before hc _) ih

/-! ## The blanks themselves -/

/-- Blanks are cut into their pieces, whatever follows them. -/
theorem cut_blankPieces (hgap : ∀ c ∈ gap, c ∈ blanks) (rest : List Char) :
    Cut (gap ++ rest) (blankPieces gap) rest := by
  induction gap with
  | nil => exact .done rest
  | cons c gap ih =>
    obtain ⟨hc, hgap⟩ := List.forall_mem_cons.1 hgap
    exact .piece rfl (.blank hc) (ih hgap)

/-- Blanks have no tokens. -/
theorem tokensOf_blankPieces (pos : Nat) (gap : List Char) :
    tokensOf pos (blankPieces gap) = [] := by
  induction gap generalizing pos with
  | nil => rfl
  | cons c gap ih =>
    rw [blankPieces, List.map_cons, tokensOf_cons]
    exact ih _

theorem fault?_of_mem_blankPieces (h : piece ∈ blankPieces gap) : piece.fault? = none := by
  obtain ⟨c, _, rfl⟩ := List.mem_map.1 h
  rfl

/-- Blanks take as many characters as they are. -/
theorem extent_blankPieces (gap : List Char) : extent (blankPieces gap) = gap.length := by
  induction gap with
  | nil => rfl
  | cons c gap ih =>
    rw [blankPieces, List.map_cons, extent_cons, ← blankPieces, ih, List.length_cons]
    exact Nat.add_comm _ _

/-! ## Between two pieces -/

theorem extent_append (before after : List Piece) :
    extent (before ++ after) = extent before + extent after := by
  rw [extent, List.flatMap_append, List.length_append, extent, extent]

/-- A text with blanks put between two of its pieces is cut into the same pieces and the blanks. -/
theorem Cut.insert_blanks (hcut : Cut text (before ++ after) rest) (hgap : ∀ c ∈ gap, c ∈ blanks) :
    Cut (text.take (extent before) ++ gap ++ text.drop (extent before))
      (before ++ blankPieces gap ++ after) rest := by
  obtain ⟨middle, hbefore, hafter⟩ := hcut.split
  rw [hbefore.text_eq, extent, List.take_left, List.drop_left, List.append_assoc,
    List.append_assoc]
  exact (hbefore.of_before hgap).append ((cut_blankPieces hgap middle).append hafter)

/-- A position within some pieces that is inside none of them lies between two of them. -/
theorem exists_split_at {pos p : Nat} (hle : p ≤ extent pieces)
    (hinside : ∀ q ∈ place pos pieces, ¬ (q.pos < pos + p ∧ pos + p < q.stop)) :
    ∃ before after, pieces = before ++ after ∧ extent before = p := by
  induction pieces generalizing pos p with
  | nil =>
    obtain rfl : p = 0 := Nat.le_zero.1 hle
    exact ⟨[], [], rfl, rfl⟩
  | cons piece pieces ih =>
    obtain ⟨hfirst, hothers⟩ := List.forall_mem_cons.1 hinside
    rcases Nat.eq_zero_or_pos p with rfl | hpos
    · exact ⟨[], piece :: pieces, rfl, rfl⟩
    · have hbeyond : piece.text.length ≤ p := by
        simp only [Placed.stop] at hfirst
        omega
      obtain ⟨p, rfl⟩ := Nat.exists_eq_add_of_le hbeyond
      rw [extent_cons] at hle
      rw [← Nat.add_assoc] at hothers
      obtain ⟨before, after, rfl, rfl⟩ := ih (Nat.le_of_add_le_add_left hle) hothers
      exact ⟨piece :: before, after, rfl, extent_cons piece before⟩

end Criterion.Token
