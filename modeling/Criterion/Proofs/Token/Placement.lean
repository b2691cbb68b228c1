import Criterion.Proofs.Token.Segment

/-!
# Where the pieces of a text lie

The pieces of a cut lie one after another from the beginning of the text, each where its characters
are. Since they leave nothing out, only blanks lie between those that are no blanks.
-/

namespace Criterion.Token

/-- A piece and the position at which it begins. -/
structure Placed where
  pos : Nat
  piece : Piece

/-- The position after the last character of a placed piece. -/
def Placed.stop (q : Placed) : Nat := q.pos + q.piece.text.length

/-- How many characters some pieces have. -/
def extent (pieces : List Piece) : Nat := (pieces.flatMap Piece.text).length

/-- Pieces that lie one after another from a position on. -/
def place (pos : Nat) : List Piece → List Placed
  | [] => []
  | piece :: pieces => ⟨pos, piece⟩ :: place (pos + piece.text.length) pieces

/-- The pieces leave nothing out before the rest of a text, they do not overlap, each one lies
where its characters are, and every character that is no blank is in a piece that is none. -/
structure Layout (text : List Char) (pieces : List Piece) (rest : List Char) : Prop where
  whole : text = pieces.flatMap Piece.text ++ rest
  apart : (place 0 pieces).Pairwise fun q r => q.stop ≤ r.pos
  inPlace : ∀ q ∈ place 0 pieces, (text.drop q.pos).take q.piece.text.length = q.piece.text
  gaps : ∀ i c, i < extent pieces → text[i]? = some c →
    c ∈ blanks ∨ ∃ q ∈ place 0 pieces, q.piece.kind ≠ .blank ∧ q.pos ≤ i ∧ i < q.stop

variable {text rest : List Char} {piece : Piece} {pieces before after : List Piece} {q : Placed}
  {pos : Nat}

theorem extent_cons (piece : Piece) (pieces : List Piece) :
    extent (piece :: pieces) = piece.text.length + extent pieces := by
  rw [extent, List.flatMap_cons, List.length_append, extent]

/-- A cut leaves nothing out. -/
theorem Cut.text_eq (hcut : Cut text pieces rest) : text = pieces.flatMap Piece.text ++ rest := by
  induction hcut with
  | done text => rfl
  | piece htext _ _ ih => rw [htext, ih, List.flatMap_cons, List.append_assoc]

/-- Where a cut ends another one can go on. -/
theorem Cut.append {middle : List Char} (hbefore : Cut text before middle)
    (hafter : Cut middle after rest) : Cut text (before ++ after) rest := by
  induction hbefore with
  | done text => exact hafter
  | piece htext hfront _ ih => exact .piece htext hfront (ih hafter)

/-- A cut is a cut of a first and a second part. -/
theorem Cut.split (hcut : Cut text (before ++ after) rest) :
    ∃ middle, Cut text before middle ∧ Cut middle after rest := by
  induction before generalizing text with
  | nil => exact ⟨text, .done text, hcut⟩
  | cons piece before ih =>
      cases hcut with
      | piece htext hfront hcut =>
        obtain ⟨middle, hbefore, hafter⟩ := ih hcut
        exact ⟨middle, .piece htext hfront hbefore, hafter⟩

/-- No piece lies before the first one. -/
theorem le_pos_of_mem_place (hq : q ∈ place pos pieces) : pos ≤ q.pos := by
  induction pieces generalizing pos with
  | nil => contradiction
  | cons piece pieces ih =>
      rcases List.mem_cons.1 hq with rfl | hq
      · exact Nat.le_refl _
      · have hle := ih hq
        omega

/-- No piece lies beyond the last one. -/
theorem stop_le_of_mem_place (hq : q ∈ place pos pieces) : q.stop ≤ pos + extent pieces := by
  induction pieces generalizing pos with
  | nil => contradiction
  | cons piece pieces ih =>
      rw [extent_cons]
      rcases List.mem_cons.1 hq with rfl | hq
      · change pos + piece.text.length ≤ pos + (piece.text.length + extent pieces)
        omega
      · have hle := ih hq
        omega

/-- Pieces that lie one after another do not overlap. -/
theorem place_apart (pos : Nat) (pieces : List Piece) :
    (place pos pieces).Pairwise fun q r => q.stop ≤ r.pos := by
  induction pieces generalizing pos with
  | nil => exact .nil
  | cons piece pieces ih => exact .cons (fun _ => le_pos_of_mem_place) (ih _)

/-- Each piece of a cut stands at the front of what begins at its position. -/
theorem Cut.front_of_mem_place (hcut : Cut text pieces rest) (hq : q ∈ place pos pieces) :
    ∃ before after, text = before ++ (q.piece.text ++ after) ∧ q.pos = pos + before.length ∧
      Front q.piece after := by
  induction hcut generalizing pos with
  | done => contradiction
  | @piece text tail _ piece _ htext hfront _ ih =>
      rcases List.mem_cons.1 hq with rfl | hq
      · exact ⟨[], tail, htext, rfl, hfront⟩
      · obtain ⟨before, after, hsplit, hpos, hafter⟩ := ih hq
        refine ⟨piece.text ++ before, after, ?_, ?_, hafter⟩
        · rw [htext, hsplit, List.append_assoc]
        · rw [hpos, List.length_append, Nat.add_assoc]

/-- Each piece of a cut takes some of its characters. -/
theorem Cut.pos_lt_stop (hcut : Cut text pieces rest) (hq : q ∈ place pos pieces) :
    q.pos < q.stop := by
  obtain ⟨_, _, _, _, hfront⟩ := hcut.front_of_mem_place hq
  exact Nat.lt_add_of_pos_right (List.length_pos_iff.2 hfront.text_ne_nil)

/-- Each character of a cut is a character of a piece. -/
theorem Cut.exists_covering (hcut : Cut text pieces rest) (pos : Nat) {i : Nat}
    (hi : i < extent pieces) :
    ∃ q ∈ place pos pieces, q.pos ≤ pos + i ∧ pos + i < q.stop ∧
      text[i]? = q.piece.text[pos + i - q.pos]? := by
  induction hcut generalizing pos i with
  | done => contradiction
  | @piece text tail _ piece _ htext _ _ ih =>
      rw [extent_cons] at hi
      by_cases hin : i < piece.text.length
      · refine ⟨⟨pos, piece⟩, List.mem_cons_self, Nat.le_add_right pos i,
          Nat.add_lt_add_left hin pos, ?_⟩
        rw [htext, List.getElem?_append_left hin, Nat.add_sub_cancel_left]
      · obtain ⟨j, rfl⟩ := Nat.exists_eq_add_of_le (Nat.le_of_not_lt hin)
        have hj : j < extent _ := Nat.lt_of_add_lt_add_left hi
        obtain ⟨q, hq, hle, hlt, hchar⟩ := ih (pos + piece.text.length) hj
        rw [Nat.add_assoc] at hle hlt hchar
        refine ⟨q, List.mem_cons_of_mem _ hq, hle, hlt, ?_⟩
        rw [htext, List.getElem?_append_right (Nat.le_add_right _ j), Nat.add_sub_cancel_left,
          hchar]

/-- The pieces of a cut are laid out in its text. -/
theorem Cut.layout (hcut : Cut text pieces rest) : Layout text pieces rest where
  whole := hcut.text_eq
  apart := place_apart 0 pieces
  inPlace q hq := by
    obtain ⟨before, after, htext, hpos, _⟩ := hcut.front_of_mem_place hq
    rw [Nat.zero_add] at hpos
    rw [htext, hpos, List.drop_left, List.take_left]
  gaps i c hi hc := by
    obtain ⟨q, hq, hle, hlt, hchar⟩ := hcut.exists_covering 0 hi
    rw [Nat.zero_add] at hle hlt hchar
    by_cases hblank : q.piece.kind = .blank
    · obtain ⟨_, _, _, _, hfront⟩ := hcut.front_of_mem_place hq
      obtain ⟨d, hd, htext⟩ := hfront.exists_blank hblank
      have hlength : q.stop = q.pos + 1 := by rw [Placed.stop, htext, List.length_singleton]
      have hi : i - q.pos = 0 := by omega
      rw [hc, htext, hi, List.getElem?_cons_zero, Option.some.injEq] at hchar
      exact .inl (hchar ▸ hd)
    · exact .inr ⟨q, hq, hblank, hle, hlt⟩

end Criterion.Token
