import Criterion.Failure.Cause
import Criterion.Proofs.Rule.Spacing

/-!
# The marker stands below the offending character

Every position that is reported for a source is one of its positions or the one behind its end: the
lexer counts characters, the parser takes its positions from the tokens and no later stage reports
one. The part of the source that is shown begins so far before the position that the marker, whose
place is computed apart, stands below the character there.
-/

namespace Criterion

/-- A function that keeps the positions of a text of a given length, with the one behind its end,
and no others. -/
def confined (n : Nat) (pos : Int) : Int := if 0 ≤ pos ∧ pos ≤ n then pos else pos + 1

/-- A rejection comes up for a source at some stage, under some limits and for some variables. -/
inductive RejectedFor (source : String) (e : Rejection) : Prop where
  | lexed {maxLength : Int} (h : Token.ofSource source maxLength = .error (.rejected e))
  | parsed {maxLength maxDepth : Int}
      (h : Expr.ofSource source maxLength maxDepth = .error (.rejected e))
  | compiled {limits : Limits} (h : (Rule.compile limits source).outcome = .error (.rejected e))
  | run {limits : Limits} {rule : Rule} {supplied : Datum}
      (hrule : (Rule.compile limits source).outcome = .ok rule)
      (h : rule.run supplied = .error (.rejected e))
  | evaluated {limits : Limits} {supplied : Datum}
      (h : (evaluate limits source supplied).outcome = .error (.rejected e))

/-- A place in a snippet of a source stands for a position of the source. -/
structure Marks (source : List Char) (pos : Nat) (snippet : List Char) (place : Nat) : Prop where
  /-- The snippet is a part of the source, in which the place has the position. -/
  part : ∃ before after, source = before ++ snippet ++ after ∧ before.length + place = pos
  size : snippet.length ≤ Rejection.windowSize
  whole : source.length ≤ Rejection.windowSize → snippet = source
  within : place ≤ snippet.length
  char : pos < source.length → place < snippet.length ∧ snippet[place]? = source[pos]?
  atEnd : pos = source.length → place = snippet.length

variable {source : String} {e : Rejection} {failure : Failure} {n : Nat} {pos : Int}

/-! ## Positions -/

/-- Only positions of the text are kept. -/
theorem confined_eq_self_iff : confined n pos = pos ↔ 0 ≤ pos ∧ pos ≤ n := by
  rw [confined]
  split
  · rename_i h
    exact iff_of_true rfl h
  · rename_i h
    exact iff_of_false (by omega) h

/-- Where a rejection stays, its position is one of the text. -/
theorem pos_of_moved (h : (Failure.rejected e).moved (confined n) = .rejected e)
    (hpos : e.pos = some pos) : 0 ≤ pos ∧ pos ≤ n := by
  obtain ⟨cause, _⟩ := e
  cases hpos
  rw [Failure.moved, Failure.rejected.injEq, Rejection.mk.injEq, Option.map_some,
    Option.some.injEq] at h
  exact confined_eq_self_iff.1 h.2

namespace Token

/-- The tokens of a source stand in it, or behind its end. -/
theorem moved_of_ofSource {maxLength : Int} {tokens : List Token}
    (h : ofSource source maxLength = .ok tokens) :
    tokens.map (moved (confined source.length)) = tokens := by
  obtain ⟨pieces, rest, hseg⟩ := exists_segmentation source.toList
  obtain ⟨rfl, _, rfl⟩ := (ofSource_eq_ok_iff (length_le_of_ofSource h) hseg).1 h
  have hextent : extent pieces = source.length := by
    rw [← hseg.1.length_eq, String.length_toList]
  have hkept (k : Nat) (hk : k ≤ source.length) : confined source.length k = k :=
    confined_eq_self_iff.2 ⟨Int.natCast_nonneg k, Int.ofNat_le.2 hk⟩
  have hpieces : (tokensOf 0 pieces).map (moved (confined source.length)) = tokensOf 0 pieces :=
    hseg.1.tokensOf_moved (n := 0) fun k _ hk => hkept k (by omega)
  rw [List.map_append, hpieces, List.map_singleton, moved, hkept _ (Nat.le_refl _)]

/-- What the lexer rejects of a source stands in it. -/
theorem moved_of_ofSource_error {maxLength : Int} (h : ofSource source maxLength = .error failure) :
    failure.moved (confined source.length) = failure := by
  by_cases hlength : maxLength < source.length
  · rw [ofSource, if_pos hlength] at h
    cases h
    rfl
  · obtain ⟨pieces, rest, hseg⟩ := exists_segmentation source.toList
    have hsource := congrArg List.length hseg.1.text_eq
    rw [String.length_toList, List.length_append] at hsource
    have hkept (cause : Cause) (k : Nat) (hk : k ≤ source.length) :
        (Failure.rejected ⟨cause, some k⟩).moved (confined source.length) =
          .rejected ⟨cause, some k⟩ := by
      have hk : confined source.length k = k :=
        confined_eq_self_iff.2 ⟨Int.natCast_nonneg k, Int.ofNat_le.2 hk⟩
      rw [Failure.moved, Option.map_some, hk]
    cases (ofSource_eq_error_iff (Int.not_lt.1 hlength) hseg).1 h with
    | @fault before after piece cause hpieces _ _ =>
      have hbefore : extent pieces = extent before + extent (piece :: after) := by
        rw [hpieces, extent_append]
      refine hkept cause (extent before) ?_
      rw [extent] at hbefore
      omega
    | character _ _ => exact hkept _ (extent pieces) (by rw [extent]; omega)

end Token

/-- What the parser rejects of a source stands in it. -/
theorem Expr.moved_of_ofSource {maxLength maxDepth : Int}
    (h : Expr.ofSource source maxLength maxDepth = .error failure) :
    failure.moved (confined source.length) = failure := by
  cases htokens : Token.ofSource source maxLength with
  | error failure' =>
    rw [Expr.ofSource, htokens] at h
    cases h
    exact Token.moved_of_ofSource_error htokens
  | ok tokens =>
    rw [Expr.ofSource, htokens] at h
    have hparsed := Expr.ofTokens_moved (confined source.length) tokens maxDepth
    change Expr.ofTokens tokens maxDepth = .error failure at h
    rw [Token.moved_of_ofSource htokens, h] at hparsed
    exact (Except.error.inj hparsed).symm

/-- What an evaluation reports of a source stands in it. -/
theorem moved_of_evaluate {limits : Limits} {supplied : Datum}
    (h : (evaluate limits source supplied).outcome = .error failure) :
    failure.moved (confined source.length) = failure := by
  have hparse : Expr.parse limits source =
      (Expr.parse limits source).mapError (Failure.moved (confined source.length)) := by
    cases hparse : Expr.parse limits source with
    | ok e => rfl
    | error failure => exact congrArg Except.error (Expr.moved_of_ofSource hparse).symm
  have hevaluated := evaluate_moved hparse supplied
  rw [h] at hevaluated
  exact (Except.error.inj hevaluated).symm

/-- Every rejection that comes up for a source stands in it. -/
theorem RejectedFor.moved_eq (h : RejectedFor source e) :
    (Failure.rejected e).moved (confined source.length) = .rejected e := by
  cases h with
  | lexed h => exact Token.moved_of_ofSource_error h
  | parsed h => exact Expr.moved_of_ofSource h
  | compiled h => exact Expr.moved_of_ofSource (Rule.compile_eq_error_iff.1 h)
  | run hrule h =>
    apply moved_of_evaluate
    rw [evaluate_of_compile hrule]
    exact h
  | evaluated h => exact moved_of_evaluate h

/-! ## The window -/

namespace Rejection

variable {text : List Char} {p : Nat}

/-- A source that fits into the window is shown as a whole. -/
theorem marks_of_length_le (hp : p ≤ text.length) (hshort : text.length ≤ windowSize) :
    Marks text p (snippet text p) (offset text p).toNat := by
  rw [snippet, offset, if_pos hshort, if_pos hshort, Int.toNat_natCast]
  exact {
    part := ⟨[], [], by rw [List.nil_append, List.append_nil], Nat.zero_add p⟩
    size := hshort
    whole := fun _ => rfl
    within := hp
    char := fun hlt => ⟨hlt, rfl⟩
    atEnd := id }

private theorem start_add_place (p : Nat) : p - lookback + min p lookback = p := by
  omega

/-- Of a longer source the window shows the position. -/
theorem marks_of_lt_length (hp : p ≤ text.length) (hlong : windowSize < text.length) :
    Marks text p (snippet text p) (offset text p).toNat := by
  have hstart : ((p : Int) - lookback).toNat = p - lookback := by omega
  have hplace : (min (p : Int) lookback).toNat = min p lookback := by omega
  have hsum := start_add_place p
  have hlength : ((text.drop (p - lookback)).take windowSize).length =
      min windowSize (text.length - (p - lookback)) := by
    rw [List.length_take, List.length_drop]
  have hsizes : windowSize = 80 ∧ lookback = 40 := ⟨rfl, rfl⟩
  rw [snippet, offset, if_neg (Nat.not_le.2 hlong), if_neg (Nat.not_le.2 hlong), hstart, hplace]
  refine {
    part := ⟨text.take (p - lookback), (text.drop (p - lookback)).drop windowSize, ?_, ?_⟩
    size := List.length_take_le _ _
    whole := fun hshort => absurd hshort (Nat.not_le.2 hlong)
    within := by omega
    char := fun hlt => ⟨by omega, ?_⟩
    atEnd := by omega }
  · rw [List.append_assoc, List.take_append_drop, List.take_append_drop]
  · rw [List.length_take]
    omega
  · rw [List.getElem?_take_of_lt (by omega), List.getElem?_drop, hsum]

/-- Every position of a source has its place in what is shown for it. -/
theorem marks_snippet (hp : p ≤ text.length) :
    Marks text p (snippet text p) (offset text p).toNat := by
  rcases Nat.lt_or_ge windowSize text.length with hlong | hshort
  · exact marks_of_lt_length hp hlong
  · exact marks_of_length_le hp hshort

/-- The marker stands two characters further to the right than the place, since the snippet is
indented by two. -/
theorem marker_offset (text : List Char) (p : Nat) :
    marker (offset text p) = List.replicate ((offset text p).toNat + 2) ' ' ++ ['^'] := by
  have hoffset : 0 ≤ offset text p := by
    rw [offset]
    split <;> omega
  rw [marker, Int.toNat_add hoffset (by decide)]
  rfl

end Rejection

/-! ## The report -/

/-- The report of a rejection shows the offending character. The position of every rejection that
comes up for a source is one of the source, or the one behind its end. Unless the source is empty,
the message is followed by a snippet of at most the size of the window, all of the source if that is
no longer, and by a marker; the place that the marker points at is that of the offending character,
or the end of the snippet if the source ends there. -/
theorem formatWithSource_marks (h : RejectedFor source e) (hpos : e.pos = some pos) :
    0 ≤ pos ∧ pos ≤ source.length ∧
      (source ≠ "" → ∃ snippet place, Marks source.toList pos.toNat snippet place ∧
        e.formatWithSource source = e.message ++ "\n  " ++ String.ofList snippet ++ "\n" ++
          String.ofList (List.replicate (place + 2) ' ') ++ "^") := by
  obtain ⟨hnonneg, hle⟩ := pos_of_moved h.moved_eq hpos
  refine ⟨hnonneg, hle, fun hsource => ?_⟩
  obtain ⟨p, rfl⟩ := Int.eq_ofNat_of_zero_le hnonneg
  have hp : p ≤ source.toList.length := by
    rw [String.length_toList]
    exact Int.ofNat_le.1 hle
  have hempty : source.isEmpty = false := by simpa using hsource
  have hcaret : String.ofList ['^'] = "^" := rfl
  refine ⟨Rejection.snippet source.toList p, (Rejection.offset source.toList p).toNat,
    Rejection.marks_snippet hp, ?_⟩
  rw [Rejection.formatWithSource, hpos]
  simp only [hempty, Bool.false_eq_true, if_false, Rejection.marker_offset, String.ofList_append,
    hcaret, String.append_assoc]

/-- A source of a hundred blanks with a character that begins no token behind them. -/
def lateOffence : String := String.ofList (List.replicate 100 ' ' ++ ['@'])

/-- In the window of a long source the marker points at the character that is to blame. -/
theorem lateOffence_marked :
    RejectedFor lateOffence ⟨.unexpectedCharacter "@", some 100⟩ ∧ lateOffence ≠ "" ∧
      ∃ snippet place, snippet.length ≤ Rejection.windowSize ∧ snippet[place]? = some '@' ∧
        Rejection.formatWithSource ⟨.unexpectedCharacter "@", some 100⟩ lateOffence =
          "Unexpected character: '@'\n  " ++ String.ofList snippet ++ "\n" ++
            String.ofList (List.replicate (place + 2) ' ') ++ "^" := by
  have hlexed : Token.ofSource lateOffence 1000 =
      .error (.rejected ⟨.unexpectedCharacter "@", some 100⟩) := rfl
  have hrejected : RejectedFor lateOffence ⟨.unexpectedCharacter "@", some 100⟩ := .lexed hlexed
  have hne : lateOffence ≠ "" := by decide
  obtain ⟨_, _, hmarks⟩ := formatWithSource_marks hrejected rfl
  obtain ⟨snippet, place, hplace, htext⟩ := hmarks hne
  refine ⟨hrejected, hne, snippet, place, hplace.size, ?_, htext⟩
  exact (hplace.char (by decide)).2.trans rfl

end Criterion
