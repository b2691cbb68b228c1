import Criterion.Binary64.Text
import Criterion.Proofs.Binary64.View
import Criterion.Proofs.Decimal.Scientific

/-!
# Doubles whose text is a plain numeral

Zero and the doubles from a ten-thousandth on and below ten to the sixteenth are shown without a
power of ten. At both ends of the range this is a matter of rounding: the shortest decimal of a
double in the range could lie outside of it. It does not, since the upper end is itself a double and
the shortest decimal of the least double in the range is the lower end.
-/

namespace Criterion.Binary64

open Decimal

variable {x : Float} {target units : Nat}

/-- A double is zero, or it is at least a ten-thousandth and less than ten to the sixteenth. -/
def IsPlain (x : Float) : Prop :=
  ∃ negative units, view x = .finite negative units ∧
    (units = 0 ∨ negative = false ∧ unitsPerOne ≤ units * Nat.pow 10 4 ∧
      units < Nat.pow 10 16 * unitsPerOne)

/-! ## The ends of the range -/

private theorem unitsOfPattern_upper :
    unitsOfPattern (patternOfRatio (Nat.pow 10 16) 1) = Nat.pow 10 16 * unitsPerOne := by
  decide +kernel

private theorem shortest_lower : shortest (patternOfRatio 1 (Nat.pow 10 4)) = ⟨1, -4⟩ := by
  decide +kernel

/-- The shortest decimal of a double below the upper end lies below it. -/
private theorem numerator_shortest_lt (h : target < infinitePattern)
    (hhigh : unitsOfPattern target < Nat.pow 10 16 * unitsPerOne) :
    (shortest target).numerator < Nat.pow 10 16 * (shortest target).denominator := by
  refine Nat.lt_of_not_le fun hge => ?_
  have hpattern := pattern_shortest h
  rw [pattern_eq] at hpattern
  have hle : patternOfRatio (Nat.pow 10 16) 1 ≤ target := by
    rw [← hpattern]
    refine nearestPattern_mono Nat.one_pos (denominator_pos _) ?_
    rw [Nat.mul_one, Nat.mul_right_comm]
    exact Nat.mul_le_mul_right unitsPerOne hge
  have hge' : target ≤ patternOfRatio (Nat.pow 10 16) 1 := by
    rw [← nearestPattern_unitsOfPattern h]
    exact nearestPattern_mono Nat.one_pos Nat.one_pos
      (Nat.mul_le_mul_right 1 (Nat.le_of_lt hhigh))
  rw [Nat.le_antisymm hge' hle, unitsOfPattern_upper] at hhigh
  exact Nat.lt_irrefl _ hhigh

/-- The shortest decimal of a double from the lower end on does not lie below it. -/
private theorem le_numerator_shortest (h : target < infinitePattern)
    (hlow : unitsPerOne ≤ unitsOfPattern target * Nat.pow 10 4) :
    (shortest target).denominator ≤ (shortest target).numerator * Nat.pow 10 4 := by
  refine Nat.le_of_not_lt fun hlt => ?_
  have hpattern := pattern_shortest h
  rw [pattern_eq] at hpattern
  have hle : target ≤ patternOfRatio 1 (Nat.pow 10 4) := by
    rw [← hpattern]
    refine nearestPattern_mono (denominator_pos _) (pow_ten_pos 4) ?_
    rw [Nat.one_mul, Nat.mul_right_comm, Nat.mul_comm unitsPerOne]
    exact Nat.mul_le_mul_right unitsPerOne (Nat.le_of_lt hlt)
  have hge : patternOfRatio 1 (Nat.pow 10 4) ≤ target := by
    rw [← nearestPattern_unitsOfPattern h]
    refine nearestPattern_mono (pow_ten_pos 4) Nat.one_pos ?_
    rw [Nat.one_mul, Nat.mul_one]
    exact hlow
  rw [Nat.le_antisymm hle hge, shortest_lower] at hlt
  exact absurd hlt (by decide)

/-! ## Texts -/

/-- The shortest decimal of a double in the range is written with all its places. -/
theorem write_shortest (h : target < infinitePattern)
    (hlow : unitsPerOne ≤ unitsOfPattern target * Nat.pow 10 4)
    (hhigh : unitsOfPattern target < Nat.pow 10 16 * unitsPerOne) :
    write .standard (shortest target) = positional .standard (shortest target) := by
  have hlow' := le_numerator_shortest h hlow
  refine write_eq_positional ?_ hlow' (numerator_shortest_lt h hhigh)
  intro hzero
  have hnumerator : (shortest target).numerator = 0 := by
    unfold numerator
    split
    · rw [hzero, Nat.zero_mul]
    · exact hzero
  rw [hnumerator, Nat.zero_mul] at hlow'
  exact absurd hlow' (Nat.not_le.2 (denominator_pos _))

/-- A double that is a whole number has the pattern of that number. -/
theorem pattern_whole (h : target < infinitePattern)
    (hwhole : unitsOfPattern target % unitsPerOne = 0) :
    pattern ⟨unitsOfPattern target / unitsPerOne, 0⟩ = target := by
  have hunits : unitsOfPattern target / unitsPerOne * unitsPerOne = unitsOfPattern target :=
    Nat.div_mul_cancel (Nat.dvd_of_mod_eq_zero hwhole)
  rw [pattern_natural, patternOfRatio, hunits, nearestPattern_unitsOfPattern h]

/-- A finite double without a sign is shown by its digits if it is a whole number that is not too
large, and otherwise by its shortest decimal. Zero is a whole number. -/
theorem displayText_cases (hview : view x = .finite false units) :
    (units % unitsPerOne = 0 ∧ displayText x = String.ofList (digitChars (units / unitsPerOne))) ∨
      (units ≠ 0 ∧
        displayText x = String.ofList (write .standard (shortest (patternOf x)))) := by
  rw [displayText, hview]
  simp only [Bool.false_and, signText, Bool.false_eq_true, if_false, String.empty_append]
  split
  · rename_i hwhole
    rw [Bool.and_eq_true, decide_eq_true_eq] at hwhole
    exact .inl ⟨hwhole.1, rfl⟩
  · rename_i hwhole
    refine .inr ⟨?_, ?_⟩
    · rintro rfl
      refine hwhole ?_
      rw [Nat.zero_mod, Nat.zero_div]
      decide
    · rw [literalText, hview]
      simp only [signText, Bool.false_eq_true, if_false, String.empty_append]

/-- The text of a plain double without a sign is a run that reads back. -/
theorem exists_run_displayText (h : IsPlain x) (hsign : isNegative x = false) :
    ∃ text, displayText x = String.ofList text ∧ IsRun text ∧
      (ofRun text).toFloat false = x := by
  obtain ⟨negative, units, hview, hrange⟩ := h
  obtain ⟨hfinite, hnegative, hunits⟩ := view_eq_finite hview
  obtain rfl : negative = false := hnegative.symm.trans hsign
  have hback {text : List Char} (hpattern : (ofRun text).pattern = patternOf x) :
      (ofRun text).toFloat false = x := by
    rw [toFloat, hpattern, ← hsign, ofPattern_patternOf]
  rcases displayText_cases hview with ⟨hwhole, htext⟩ | ⟨hne, htext⟩
  · refine ⟨_, htext, isRun_of_digits (digitChars_ne_nil _) isDigit_of_mem_digitChars, hback ?_⟩
    rw [← hunits] at hwhole ⊢
    rw [ofRun_digitChars, pattern_whole hfinite hwhole]
  · obtain ⟨_, hlow, hhigh⟩ := hrange.resolve_left hne
    rw [← hunits] at hlow hhigh
    rw [write_shortest hfinite hlow hhigh] at htext
    refine ⟨_, htext, isRun_positional _, hback ?_⟩
    rw [pattern_ofRun_positional, pattern_shortest hfinite]

/-! ## The texts of finite doubles

Every finite double without a sign is shown by a numeral that is read back as the double: whole
numbers by their digits, all others by the shortest decimal, be it with all its places or with a
power of ten. Infinity is not, but there is no other double that a decimal can be nearest to.
-/

/-- The text of a finite double without a sign writes its pattern. -/
theorem writes_displayText (hview : view x = .finite false units) :
    Writes (displayText x).toList (patternOf x) := by
  obtain ⟨hfinite, _, hunits⟩ := view_eq_finite hview
  rcases displayText_cases hview with ⟨hwhole, htext⟩ | ⟨_, htext⟩
  · have hwrites := (isRun_of_digits (digitChars_ne_nil (units / unitsPerOne))
      isDigit_of_mem_digitChars).writes
    rw [← hunits] at hwhole
    rw [ofRun_digitChars, ← hunits, pattern_whole hfinite hwhole, hunits] at hwrites
    rwa [htext, String.toList_ofList]
  · have hwrites := writes_write (shortest (patternOf x))
    rw [pattern_shortest hfinite] at hwrites
    rwa [htext, String.toList_ofList]

/-- A finite double without a sign is read off its text. -/
theorem exists_decimal?_displayText (hview : view x = .finite false units) :
    ∃ d, Numeral.decimal? Text.decimalDigit? (displayText x).toList = some d ∧
      d.toFloat false = x := by
  obtain ⟨d, hread, hpattern⟩ := (writes_displayText hview).reads
  refine ⟨d, hread, ?_⟩
  rw [Decimal.toFloat, hpattern, ← (view_eq_finite hview).2.1, ofPattern_patternOf]

/-! ## Infinity -/

theorem displayText_infinite : displayText (infinite false) = "Infinity" := by
  rw [displayText, view_infinite]
  rfl

/-- The double nearest to a decimal is finite or infinity. -/
theorem view_toFloat (d : Decimal) :
    (∃ units, view (d.toFloat false) = .finite false units) ∨ d.toFloat false = infinite false := by
  rcases Nat.lt_or_eq_of_le d.pattern_le with hlt | heq
  · exact .inl ⟨_, view_ofPattern false hlt⟩
  · exact .inr (congrArg (ofPattern false) heq)

end Criterion.Binary64
