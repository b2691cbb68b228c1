import Criterion.Proofs.Binary64.Comparison
import Criterion.Proofs.Binary64.PlainText

/-!
# Doubles read off their texts

The text of a double is a numeral of printing characters, with a sign in front where one is due, or
one of three words. It is read back as the double, but for what is not shown: the sign of a zero and
the bits of what is no number. Hence only doubles that compare equal have one text.
-/

namespace Criterion

/-- Whether a character of ASCII is a printing one other than the space. -/
def Text.isGraphic (c : Char) : Bool := 0x21 ≤ c.toNat && c.toNat ≤ 0x7e

/-- Printing characters are no white space. -/
theorem Text.isNameBlank_of_isGraphic {c : Char} (h : isGraphic c) : isNameBlank c = false := by
  rw [isGraphic, Bool.and_eq_true, decide_eq_true_eq, decide_eq_true_eq] at h
  simp only [isNameBlank, isBlank, Bool.or_eq_false_iff, Bool.and_eq_false_iff,
    decide_eq_false_iff_not, beq_eq_false_iff_ne]
  omega

private theorem Text.isGraphic_of_isDigit {c : Char} (h : c.isDigit) : isGraphic c := by
  have hrange : 48 ≤ c.toNat ∧ c.toNat ≤ 57 := Char.isDigit_iff_toNat.1 h
  rw [isGraphic, Bool.and_eq_true, decide_eq_true_eq, decide_eq_true_eq]
  omega

namespace Decimal

private theorem forall_mem_write {P : Char → Prop} (hdigit : ∀ c, c.isDigit → P c)
    (hmarks : P '.' ∧ P 'e' ∧ P '-' ∧ P '+') (d : Decimal) : ∀ c ∈ write .standard d, P c := by
  rw [write]
  split
  · intro c hc
    rcases (isRun_positional d).chars c hc with hc | rfl
    · exact hdigit c hc
    · exact hmarks.1
  · exact forall_mem_scientific hdigit hmarks d

end Decimal

namespace Binary64

open Decimal Numeral Text Float.Model

/-- The double without the sign. -/
def magnitude (x : Float) : Float := ofPattern false (patternOf x)

/-- What is read off the text of a double: the double itself, unless it is no number or a zero with
a sign, which the text does not show. -/
inductive ReadBack : Float → Float → Prop where
  | nan {x y : Float} (hx : isNan x) (hy : isNan y) : ReadBack x y
  | negativeZero : ReadBack (zero true) (zero false)
  | same {x : Float} (hnumber : isNan x = false) (hzero : x ≠ zero true) : ReadBack x x

variable {x y z : Float} {negative : Bool} {units : Nat}

/-! ## Magnitudes -/

/-- The magnitude of a finite double has its units. -/
theorem view_magnitude (hview : view x = .finite negative units) :
    view (magnitude x) = .finite false units := by
  obtain ⟨hfinite, _, hunits⟩ := view_eq_finite hview
  rw [magnitude, view_ofPattern false hfinite, hunits]

theorem patternOf_magnitude (hview : view x = .finite negative units) :
    patternOf (magnitude x) = patternOf x :=
  patternOf_ofPattern false (Nat.le_of_lt (view_eq_finite hview).1)

/-! ## Words and signs -/

theorem displayText_of_nan (hview : view x = .nan) : displayText x = "NaN" := by
  rw [displayText, hview]

theorem displayText_of_infinite (hview : view x = .infinite negative) :
    displayText x = signText negative ++ "Infinity" := by
  rw [displayText, hview]

/-- A finite double is shown by its sign, which zero has not, and its magnitude. -/
theorem displayText_eq (hview : view x = .finite negative units) :
    displayText x = signText (negative && units != 0) ++ displayText (magnitude x) := by
  have hmagnitude := view_magnitude hview
  have hplain : signText (false && units != 0) = "" := rfl
  rw [displayText, hview, displayText, hmagnitude]
  simp only [hplain, String.empty_append]
  split
  · rfl
  · rename_i hwhole
    have hunits : (units != 0) = true := by
      rw [bne_iff_ne]
      rintro rfl
      apply hwhole
      rw [Nat.zero_mod, Nat.zero_div]
      decide
    have hsign : signText false = "" := rfl
    rw [literalText, hview, literalText, hmagnitude, patternOf_magnitude hview, hunits,
      Bool.and_true]
    simp only [hsign, String.empty_append]

/-- What holds of digits, of the marks in a decimal and of the letters of two words holds of all
characters of the text of a double. -/
theorem forall_mem_displayText {P : Char → Prop} (hdigit : ∀ c, c.isDigit → P c)
    (hmarks : P '.' ∧ P 'e' ∧ P '-' ∧ P '+') (hwords : ∀ c ∈ ("NaN" ++ "Infinity").toList, P c)
    (x : Float) : ∀ c ∈ (displayText x).toList, P c := by
  rw [String.toList_append, List.forall_mem_append] at hwords
  have hsign (signed : Bool) : ∀ c ∈ (signText signed).toList, P c := by
    cases signed with
    | false => exact List.forall_mem_nil _
    | true => exact List.forall_mem_singleton.2 hmarks.2.2.1
  cases hview : view x with
  | nan =>
    rw [displayText_of_nan hview]
    exact hwords.1
  | infinite negative =>
    rw [displayText_of_infinite hview, String.toList_append, List.forall_mem_append]
    exact ⟨hsign negative, hwords.2⟩
  | finite negative units =>
    rw [displayText_eq hview, String.toList_append, List.forall_mem_append]
    refine ⟨hsign _, ?_⟩
    rcases displayText_cases (view_magnitude hview) with ⟨_, htext⟩ | ⟨_, htext⟩
    · rw [htext, String.toList_ofList]
      intro c hc
      exact hdigit c (isDigit_of_mem_digitChars c hc)
    · rw [htext, String.toList_ofList]
      exact forall_mem_write hdigit hmarks _

/-- Every text of a double consists of printing characters. -/
theorem graphic_displayText (x : Float) : ∀ c ∈ (displayText x).toList, isGraphic c :=
  forall_mem_displayText (fun _ => isGraphic_of_isDigit) (by decide)
    (List.all_eq_true.1 (by decide)) x

private theorem sign_signText {c : Char} {run : List Char} (hc : c.isDigit) (negative : Bool) :
    sign ((signText negative).toList ++ c :: run) = (negative, c :: run) := by
  cases negative with
  | false => exact sign_of_isDigit hc
  | true => rfl

/-! ## Reading -/

/-- What consists of printing characters is read without being trimmed. -/
private theorem readFloat?_of_graphic {text : List Char} (h : ∀ c ∈ text, isGraphic c) :
    readFloat? text = (parse? decimalDigit? text).map Numeral.toFloat := by
  have htrim : trim isBlank text = text := by
    apply trim_eq_self
    intro c hc
    exact (Bool.or_eq_false_iff.1 (isNameBlank_of_isGraphic (h c hc))).1
  rw [readFloat?, htrim]

/-- The text of a finite double is read as the double, without the sign of a zero. -/
theorem readFloat?_displayText_finite (hview : view x = .finite negative units) :
    readFloat? (displayText x).toList =
      some (ofPattern (negative && units != 0) (patternOf x)) := by
  have hwrites := writes_displayText (view_magnitude hview)
  rw [patternOf_magnitude hview] at hwrites
  obtain ⟨d, hread, hpattern⟩ := hwrites.reads
  obtain ⟨c, run, htext, hc⟩ := hwrites.starts
  rw [htext] at hread
  rw [readFloat?_of_graphic (graphic_displayText x), displayText_eq hview, String.toList_append,
    htext, parse?_of_sign (sign_signText hc _) hc, hread, ← hpattern]
  rfl

/-- Every text of a double is read back. -/
theorem exists_readFloat?_displayText (x : Float) :
    ∃ y, readFloat? (displayText x).toList = some y ∧ ReadBack x y := by
  cases hview : view x with
  | nan =>
    have hnan : isNan x = true := by
      rw [isNan, hview]
      rfl
    rw [displayText_of_nan hview]
    exact ⟨nan, rfl, .nan hnan (by decide +kernel)⟩
  | infinite negative =>
    have hback : ReadBack x x := by
      apply ReadBack.same
      · rw [isNan_eq_false_iff, hview]
        intro h
        cases h
      · rintro rfl
        rw [view_zero] at hview
        cases hview
    refine ⟨x, ?_, hback⟩
    rw [displayText_of_infinite hview, eq_infinite hview]
    cases negative <;> rfl
  | finite negative units =>
    refine ⟨_, readFloat?_displayText_finite hview, ?_⟩
    have hnumber : isNan x = false := by
      rw [isNan_eq_false_iff, hview]
      intro h
      cases h
    by_cases hzero : x = zero true
    · subst hzero
      rw [view_zero] at hview
      cases hview
      exact .negativeZero
    · have hsign : (negative && units != 0) = negative := by
        cases negative with
        | false => rfl
        | true =>
          rw [Bool.true_and, bne_iff_ne]
          rintro rfl
          exact hzero (eq_zero hview)
      rw [hsign, ← (view_eq_finite hview).2.1, ofPattern_patternOf]
      exact .same hnumber hzero

/-! ## Comparing -/

/-- A number is read back as itself unless it is the negative zero. -/
theorem ReadBack.eq_or_zero (h : ReadBack x y) (hx : isNan x = false) :
    x = y ∨ x = zero true ∧ y = zero false := by
  cases h with
  | nan h =>
    rw [hx] at h
    cases h
  | negativeZero => exact .inr ⟨rfl, rfl⟩
  | same => exact .inl rfl

/-- Numbers that are read back as one double compare equal. -/
theorem ReadBack.beq (h : ReadBack x z) (h' : ReadBack y z) (hx : isNan x = false)
    (hy : isNan y = false) : (x == y) = true := by
  rcases h.eq_or_zero hx with rfl | ⟨rfl, rfl⟩
  · rcases h'.eq_or_zero hy with rfl | ⟨rfl, rfl⟩
    · exact beq_self hx
    · rfl
  · rcases h'.eq_or_zero hy with rfl | ⟨rfl, _⟩
    · rfl
    · rfl

/-- Numbers that do not compare equal are told apart by their texts. -/
theorem displayText_ne (hx : isNan x = false) (hy : isNan y = false) (hne : (x == y) = false) :
    displayText x ≠ displayText y := by
  intro htext
  obtain ⟨z, hread, hx'⟩ := exists_readFloat?_displayText x
  obtain ⟨z', hread', hy'⟩ := exists_readFloat?_displayText y
  rw [htext, hread'] at hread
  rw [Option.some.inj hread] at hy'
  rw [hx'.beq hy' hx hy] at hne
  cases hne

end Binary64

end Criterion
