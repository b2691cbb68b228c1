import Criterion.Proofs.Failure.Snippet

/-!
# Where the marker stands on the screen

On the screen a report is broken into rows. The marker has its place in the last row, and the
offending character has one in the row above it, if the part of the source that is shown has no line
break: then both are in one column. A line break in front of the character moves it to the left of
the marker, and a line break behind it moves the marker to a lower row.
-/

namespace Criterion

/-- Which characters end a line. The line feed does, and the space does not. -/
structure LineEnds where
  ends : Char → Bool
  lineFeed : ends '\n' = true
  space : ends ' ' = false

/-- A row and a column of the screen, counted from zero. -/
structure Spot where
  row : Nat
  column : Nat
  deriving DecidableEq, Repr

namespace LineEnds

variable (lines : LineEnds) {spot : Spot} {text : List Char}

/-- Where a text goes on behind a character: in the next column, or in the next row if the character
ends a line. -/
def next (spot : Spot) (c : Char) : Spot :=
  if lines.ends c then ⟨spot.row + 1, 0⟩ else ⟨spot.row, spot.column + 1⟩

/-- Where a text goes on behind what begins at a spot. -/
def after (spot : Spot) (text : List Char) : Spot := text.foldl lines.next spot

/-- Where a character of a text stands. -/
def spotOf (text : List Char) (index : Nat) : Spot := lines.after ⟨0, 0⟩ (text.take index)

/-- The last character of a text stands directly below another one. -/
def Underlines (text : List Char) (index : Nat) : Prop :=
  lines.spotOf text (text.length - 1) =
    ⟨(lines.spotOf text index).row + 1, (lines.spotOf text index).column⟩

instance (text : List Char) (index : Nat) : Decidable (lines.Underlines text index) :=
  inferInstanceAs (Decidable (_ = _))

/-! ## Rows and columns -/

theorem after_cons (spot : Spot) (c : Char) (text : List Char) :
    lines.after spot (c :: text) = lines.after (lines.next spot c) text := rfl

theorem after_append (spot : Spot) (s t : List Char) :
    lines.after spot (s ++ t) = lines.after (lines.after spot s) t :=
  List.foldl_append

/-- Every line break begins a new row, and nothing else does. -/
theorem row_after (spot : Spot) (text : List Char) :
    (lines.after spot text).row = spot.row + text.countP lines.ends := by
  induction text generalizing spot with
  | nil => rfl
  | cons c text ih =>
    rw [after_cons, ih, next, List.countP_cons]
    split
    · rw [Nat.add_assoc, Nat.add_comm 1]
    · rfl

private theorem column_after_le (spot : Spot) (text : List Char) :
    (lines.after spot text).column ≤ spot.column + text.length := by
  induction text generalizing spot with
  | nil => exact Nat.le_refl _
  | cons c text ih =>
    have hrest := ih (lines.next spot c)
    have hnext : (lines.next spot c).column ≤ spot.column + 1 := by
      rw [next]
      split <;> simp
    rw [after_cons, List.length_cons]
    omega

/-- A text takes one column for each character exactly if it has no line break. -/
theorem column_after_eq_iff (spot : Spot) (text : List Char) :
    (lines.after spot text).column = spot.column + text.length ↔
      ∀ c ∈ text, lines.ends c = false := by
  induction text generalizing spot with
  | nil => exact iff_of_true rfl (List.forall_mem_nil _)
  | cons c text ih =>
    rw [after_cons, List.forall_mem_cons, List.length_cons, next]
    cases hbreak : lines.ends c with
    | false =>
      rw [if_neg Bool.false_ne_true, ← ih ⟨spot.row, spot.column + 1⟩, Nat.add_right_comm,
        Nat.add_assoc]
      exact (and_iff_right rfl).symm
    | true =>
      have hle : (lines.after ⟨spot.row + 1, 0⟩ text).column ≤ 0 + text.length :=
        lines.column_after_le ⟨spot.row + 1, 0⟩ text
      rw [if_pos rfl]
      exact iff_of_false (by omega) fun h => by cases h.1

/-- A place of a text is in the last row, as many columns behind the beginning as characters,
exactly if the text has no line break. -/
theorem row_eq_and_column_eq_iff (spot : Spot) {place : Nat} (hplace : place ≤ text.length) :
    (lines.after spot text).row = (lines.after spot (text.take place)).row ∧
        spot.column + place = (lines.after spot (text.take place)).column ↔
      ∀ c ∈ text, lines.ends c = false := by
  have hparts : text.take place ++ text.drop place = text := List.take_append_drop ..
  have hlength : (text.take place).length = place := List.length_take_of_le hplace
  -- A line break in front of the place changes its column, one behind it the last row.
  have hbefore := lines.column_after_eq_iff spot (text.take place)
  have hbehind : (text.drop place).countP lines.ends = 0 ↔
      ∀ c ∈ text.drop place, lines.ends c = false := by
    simp
  have hrow : text.countP lines.ends =
      (text.take place).countP lines.ends + (text.drop place).countP lines.ends := by
    rw [← List.countP_append, hparts]
  have hall : (∀ c ∈ text, lines.ends c = false) ↔
      (∀ c ∈ text.take place, lines.ends c = false) ∧
        ∀ c ∈ text.drop place, lines.ends c = false := by
    rw [← List.forall_mem_append, hparts]
  rw [hlength] at hbefore
  rw [hall, ← hbefore, ← hbehind, lines.row_after, lines.row_after, hrow]
  omega

private theorem after_replicate_space (spot : Spot) (n : Nat) :
    lines.after spot (List.replicate n ' ') = ⟨spot.row, spot.column + n⟩ := by
  induction n generalizing spot with
  | zero => rfl
  | succ n ih =>
    rw [List.replicate_succ, after_cons, ih, next, lines.space, if_neg Bool.false_ne_true,
      Nat.add_right_comm, Nat.add_assoc]

/-- Behind a line feed and some blanks a text goes on in the next row, behind the blanks. -/
theorem after_indented (spot : Spot) (n : Nat) :
    lines.after spot ('\n' :: List.replicate n ' ') = ⟨spot.row + 1, n⟩ := by
  rw [after_cons, next, lines.lineFeed, if_pos rfl, after_replicate_space, Nat.zero_add]

end LineEnds

/-! ## The marker -/

namespace Rejection

/-- How a report is laid out: a message, a snippet that is indented by two, and a marker below a
place of the shown. -/
def layout (message shown : List Char) (place : Nat) : List Char :=
  message ++ '\n' :: List.replicate 2 ' ' ++ shown ++ '\n' :: List.replicate (place + 2) ' ' ++
    ['^']

variable (lines : LineEnds) (message : List Char) {shown : List Char} {place : Nat}

theorem length_front :
    (message ++ '\n' :: List.replicate 2 ' ').length = message.length + 3 := by
  simp

/-- A place of the snippet stands as far behind the indentation as the snippet goes before it. -/
theorem spotOf_place (hplace : place ≤ shown.length) :
    lines.spotOf (layout message shown place) (message.length + 3 + place) =
      lines.after ⟨(lines.after ⟨0, 0⟩ message).row + 1, 2⟩ (shown.take place) := by
  have htake : (layout message shown place).take (message.length + 3 + place) =
      message ++ '\n' :: List.replicate 2 ' ' ++ shown.take place := by
    rw [layout, List.append_assoc, List.append_assoc, ← length_front, List.take_length_add_append,
      List.take_append_of_le_length hplace]
  rw [LineEnds.spotOf, htake, lines.after_append, lines.after_append, lines.after_indented]

/-- The marker stands in the row below the snippet, behind as many blanks as there are before it. -/
theorem spotOf_marker (shown : List Char) (place : Nat) :
    lines.spotOf (layout message shown place) ((layout message shown place).length - 1) =
      ⟨(lines.after ⟨(lines.after ⟨0, 0⟩ message).row + 1, 2⟩ shown).row + 1, place + 2⟩ := by
  rw [LineEnds.spotOf, ← List.dropLast_eq_take, layout, List.dropLast_concat, lines.after_append,
    lines.after_append, lines.after_append, lines.after_indented, lines.after_indented]

/-- The marker stands directly below its place exactly if the snippet has no line break. -/
theorem underlines_layout_iff (hplace : place ≤ shown.length) :
    lines.Underlines (layout message shown place) (message.length + 3 + place) ↔
      ∀ c ∈ shown, lines.ends c = false := by
  rw [LineEnds.Underlines, spotOf_marker, spotOf_place lines message hplace, Spot.mk.injEq,
    Nat.add_right_cancel_iff, Nat.add_comm place]
  exact lines.row_eq_and_column_eq_iff _ hplace

private theorem getElem?_layout (hplace : place < shown.length) :
    (layout message shown place)[message.length + 3 + place]? = shown[place]? := by
  rw [layout, List.append_assoc, List.append_assoc, ← length_front, List.getElem?_append_right
    (Nat.le_add_right _ _), Nat.add_sub_cancel_left, List.getElem?_append_left hplace]

/-- The report of a rejection shows the snippet for its position. -/
theorem toList_formatWithSource {e : Rejection} {source : String} {p : Nat}
    (hpos : e.pos = some (p : Int)) (hsource : source ≠ "") :
    (e.formatWithSource source).toList = layout e.message.toList (snippet source.toList p)
      (offset source.toList p).toNat := by
  have hempty : source.isEmpty = false := by simpa using hsource
  have hbreak : "\n  ".toList = '\n' :: List.replicate 2 ' ' := rfl
  have hfeed : "\n".toList = ['\n'] := rfl
  rw [formatWithSource, hpos]
  simp only [hempty, Bool.false_eq_true, if_false, marker_offset, String.toList_append,
    String.toList_ofList, hbreak, hfeed, layout, List.append_assoc, List.cons_append,
    List.nil_append]

end Rejection

variable {source : String} {e : Rejection} {pos : Int}

/-- Whatever characters end a line, the marker of a report stands directly below the offending
character exactly if the part of the source that is shown has no line break. -/
theorem marker_below_iff (lines : LineEnds) (h : RejectedFor source e) (hpos : e.pos = some pos)
    (hlt : pos < source.length) :
    ∃ place, Marks source.toList pos.toNat (Rejection.snippet source.toList pos) place ∧
      (e.formatWithSource source).toList =
        Rejection.layout e.message.toList (Rejection.snippet source.toList pos) place ∧
      (e.formatWithSource source).toList[e.message.length + 3 + place]? =
        source.toList[pos.toNat]? ∧
      (lines.Underlines (e.formatWithSource source).toList (e.message.length + 3 + place) ↔
        ∀ c ∈ Rejection.snippet source.toList pos, lines.ends c = false) := by
  obtain ⟨hnonneg, _⟩ := pos_of_moved h.moved_eq hpos
  obtain ⟨p, rfl⟩ := Int.eq_ofNat_of_zero_le hnonneg
  have hp : p < source.toList.length := by
    rw [String.length_toList]
    exact Int.ofNat_lt.1 hlt
  have hsource : source ≠ "" := by
    rintro rfl
    exact absurd hp (Nat.not_lt_zero p)
  have hmarks := Rejection.marks_snippet (Nat.le_of_lt hp)
  obtain ⟨hplace, hchar⟩ := hmarks.char hp
  have hreport := Rejection.toList_formatWithSource hpos hsource
  refine ⟨(Rejection.offset source.toList p).toNat, hmarks, hreport, ?_, ?_⟩
  · rw [hreport, ← String.length_toList, Rejection.getElem?_layout _ hplace]
    exact hchar
  · rw [hreport, ← String.length_toList]
    exact Rejection.underlines_layout_iff lines _ hmarks.within

/-- Only line feeds end a line. -/
def LineEnds.lineFeeds : LineEnds where
  ends c := c == '\n'
  lineFeed := rfl
  space := rfl

/-- A line feed, a hundred blanks and a character that begins no token. -/
def lateSecondLine : String := String.ofList ('\n' :: (List.replicate 100 ' ' ++ ['@']))

/-- A line break too far in front to be shown leaves the marker below the character. -/
theorem lateSecondLine_marker_below :
    RejectedFor lateSecondLine ⟨.unexpectedCharacter "@", some 101⟩ ∧
      (101 : Int) < lateSecondLine.length ∧
      ∃ index, (Rejection.formatWithSource ⟨.unexpectedCharacter "@", some 101⟩
          lateSecondLine).toList[index]? = some '@' ∧
        LineEnds.lineFeeds.Underlines (Rejection.formatWithSource ⟨.unexpectedCharacter "@", some 101⟩
          lateSecondLine).toList index := by
  have hlexed : Token.ofSource lateSecondLine 1000 =
      .error (.rejected ⟨.unexpectedCharacter "@", some 101⟩) := rfl
  have hrejected : RejectedFor lateSecondLine ⟨.unexpectedCharacter "@", some 101⟩ :=
    .lexed hlexed
  have hlt : (101 : Int) < lateSecondLine.length := by decide
  have hshown : Rejection.snippet lateSecondLine.toList 101 = List.replicate 40 ' ' ++ ['@'] := rfl
  obtain ⟨place, _, _, hchar, hbelow⟩ := marker_below_iff LineEnds.lineFeeds hrejected rfl hlt
  refine ⟨hrejected, hlt, _, hchar.trans rfl, hbelow.2 ?_⟩
  rw [hshown, List.forall_mem_append]
  refine ⟨fun c hc => ?_, List.forall_mem_singleton.2 rfl⟩
  rw [List.eq_of_mem_replicate hc]
  rfl

/-- In a source of two lines the marker stands to the right of the character that is to blame. -/
theorem secondLine_marker_aside :
    RejectedFor "1\n@" ⟨.unexpectedCharacter "@", some 2⟩ ∧
      (2 : Int) < "1\n@".length ∧ "1\n@".toList[2]? = some '@' ∧
      LineEnds.lineFeeds.ends '@' = false ∧
      Rejection.formatWithSource ⟨.unexpectedCharacter "@", some 2⟩ "1\n@" =
        "Unexpected character: '@'\n  1\n@\n    ^" ∧
      "Unexpected character: '@'\n  1\n@\n    ^".toList[30]? = some '@' ∧
      ¬LineEnds.lineFeeds.Underlines "Unexpected character: '@'\n  1\n@\n    ^".toList 30 := by
  have hlexed : Token.ofSource "1\n@" 1000 =
      .error (.rejected ⟨.unexpectedCharacter "@", some 2⟩) := rfl
  exact ⟨.lexed hlexed, by decide, rfl, rfl, rfl, rfl, by decide⟩

end Criterion
