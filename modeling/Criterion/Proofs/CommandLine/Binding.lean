import Criterion.CommandLine.Arguments
import Criterion.Proofs.Binary64.SignedText

/-!
# Values passed on

A value that is printed may be bound to a variable by its text. The first equals sign divides the
binding from the name, which has none, and the text of a value has no white space that would be
dropped. What is bound is the value, but for what is not printed of a number.
-/

namespace Criterion

open Binary64

private theorem Text.trim_ne_nil {drops : Char → Bool} {text : List Char}
    (h : ∃ c ∈ text, drops c = false) : trim drops text ≠ [] := by
  obtain ⟨c, hc, hkept⟩ := h
  intro htrim
  rw [trim, List.reverse_eq_nil_iff, List.dropWhile_eq_nil_iff] at htrim
  have hdropped : ∀ d ∈ text.dropWhile drops, drops d = true := fun d hd =>
    htrim d (List.mem_reverse.2 hd)
  rw [← List.takeWhile_append_dropWhile (p := drops) (l := text), List.mem_append] at hc
  rcases hc with hc | hc
  · rw [List.mem_takeWhile_imp hc] at hkept
    cases hkept
  · rw [hdropped c hc] at hkept
    cases hkept

/-- What a text stands for that shows a value: a truth value is the same, and a number is what is
read off its text. -/
inductive Value.ReadBack : Value → Value → Prop where
  | boolean (b : Bool) : ReadBack (.boolean b) (.boolean b)
  | number {x y : Float} (h : Binary64.ReadBack x y) : ReadBack (.number x) (.number y)

private theorem Value.graphic_text (v : Value) : ∀ c ∈ v.text.toList, Text.isGraphic c := by
  cases v with
  | number x => exact graphic_displayText x
  | boolean b => cases b <;> exact List.all_eq_true.1 (by decide)

namespace CommandLine.Binding

variable {name value : List Char} {v : Value}

private theorem trimmed_text (v : Value) : trimmed v.text.toList = v.text.toList := by
  apply Numeral.trim_eq_self
  intro c hc
  exact Text.isNameBlank_of_isGraphic (v.graphic_text c hc)

/-- No number is shown by the word for a truth value. -/
theorem displayText_ne_of_unread {x : Float} {word : String}
    (h : Numeral.readFloat? word.toList = none) : displayText x ≠ word := by
  rintro rfl
  obtain ⟨y, hread, _⟩ := exists_readFloat?_displayText x
  rw [h] at hread
  cases hread

/-- Every text of a value spells a value. -/
theorem exists_valueOf?_text (v : Value) : ∃ w, valueOf? v.text.toList = some w ∧ v.ReadBack w := by
  cases v with
  | number x =>
    obtain ⟨y, hread, hback⟩ := exists_readFloat?_displayText x
    refine ⟨.number y, ?_, .number hback⟩
    have htrue : displayText x ≠ "true" := displayText_ne_of_unread (by decide)
    have hfalse : displayText x ≠ "false" := displayText_ne_of_unread (by decide)
    rw [valueOf?, Value.text, String.ofList_toList, if_neg htrue, if_neg hfalse, hread]
    rfl
  | boolean b =>
    refine ⟨.boolean b, ?_, .boolean b⟩
    cases b <;> rfl

/-- The first equals sign divides a binding. -/
theorem parse_of_valueOf? (hname : '=' ∉ name) (hne : trimmed name ≠ [])
    (hvalue : valueOf? (trimmed value) = some v) :
    parse (String.ofList (name ++ '=' :: value)) = .ok ⟨String.ofList (trimmed name), v⟩ := by
  have hbefore : ∀ c ∈ name, (c != '=') = true := by
    intro c hc
    rw [bne_iff_ne]
    rintro rfl
    exact hname hc
  have htake : (name ++ '=' :: value).takeWhile (· != '=') = name := by
    rw [List.takeWhile_append_of_pos hbefore, List.takeWhile_cons_of_neg (by decide),
      List.append_nil]
  have hdrop : (name ++ '=' :: value).dropWhile (· != '=') = '=' :: value := by
    rw [List.dropWhile_append_of_pos hbefore, List.dropWhile_cons_of_neg (by decide)]
  have hkept : (trimmed name).isEmpty = false := List.isEmpty_eq_false_iff.2 hne
  simp only [parse, String.toList_ofList, htake, hdrop, hkept, hvalue, Bool.false_eq_true, if_false]

/-- What is printed for a value may be passed on behind any name that has no equals sign and is not
white space alone, and the value is bound to that name. Hence two numbers have different texts
unless they compare equal. -/
theorem parse_text :
    (∀ (name : String) (v : Value), '=' ∉ name.toList →
      (∃ c ∈ name.toList, Text.isNameBlank c = false) →
        ∃ w, parse (name ++ "=" ++ v.text) = .ok ⟨String.ofList (trimmed name.toList), w⟩ ∧
          v.ReadBack w) ∧
      ∀ x y, isNan x = false → isNan y = false → (x == y) = false →
        displayText x ≠ displayText y := by
  constructor
  · intro name v hname hkept
    obtain ⟨w, hvalue, hback⟩ := exists_valueOf?_text v
    rw [← trimmed_text v] at hvalue
    refine ⟨w, ?_, hback⟩
    have hraw : name ++ "=" ++ v.text = String.ofList (name.toList ++ '=' :: v.text.toList) := by
      rw [← String.toList_inj]
      simp
    rw [hraw]
    exact parse_of_valueOf? hname (Text.trim_ne_nil hkept) hvalue
  · intro x y hx hy hne
    exact displayText_ne hx hy hne

/-- The least positive double, which is shown with a power of ten, is passed on behind a name in
white space and does not share its text with zero. -/
theorem least_passed_on :
    '=' ∉ " rate".toList ∧ (∃ c ∈ " rate".toList, Text.isNameBlank c = false) ∧
      isNan (ofPattern false 1) = false ∧ isNan (zero false) = false ∧
      (ofPattern false 1 == zero false) = false ∧
      parse (" rate" ++ "=" ++ (Value.number (ofPattern false 1)).text) =
        .ok ⟨"rate", .number (ofPattern false 1)⟩ ∧
      displayText (ofPattern false 1) ≠ displayText (zero false) := by
  have hname : '=' ∉ " rate".toList := by decide
  have hkept : ∃ c ∈ " rate".toList, Text.isNameBlank c = false := ⟨'r', by decide, by decide⟩
  have hleast : isNan (ofPattern false 1) = false := by decide +kernel
  have hzero : isNan (zero false) = false := by decide +kernel
  have hne : (ofPattern false 1 == zero false) = false := by decide +kernel
  obtain ⟨w, hparse, hback⟩ := parse_text.1 " rate" (.number (ofPattern false 1)) hname hkept
  have hsign : ofPattern false 1 ≠ zero true := by decide +kernel
  have hw : w = .number (ofPattern false 1) := by
    cases hback with
    | number h =>
      rcases h.eq_or_zero hleast with hback | ⟨hback, _⟩
      · rw [hback]
      · exact absurd hback hsign
  rw [hw] at hparse
  exact ⟨hname, hkept, hleast, hzero, hne, hparse, parse_text.2 _ _ hleast hzero hne⟩

end CommandLine.Binding

end Criterion
