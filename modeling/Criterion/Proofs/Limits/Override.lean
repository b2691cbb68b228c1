import Criterion.Limits.Basic
import Criterion.Proofs.Limits.Settings

/-!
# Limits are overridden one by one

Limits that are valid pass validation again unchanged. An override can therefore be told for each
limit by itself: the limit becomes the integer that the text in its variable is taken for, or stays
as it is where there is no text. To do so again makes no difference, and of two texts one after the
other only the later one counts; what holds of each limit holds of both.
-/

namespace Criterion.Limits

/-- The integer that a text is taken for. -/
def coerced? (text : String) : Option Int := (Datum.text text).toInteger.toOption

/-- What a limit becomes, given the text in its variable. -/
def updated (present : Nat) : (given : Option String) → Option Int
  | some text => coerced? text
  | none => some present

/-- The integers that can be set for the length. -/
def IsLength (n : Int) : Prop := 1 ≤ n

/-- The integers that can be set for the depth. -/
def IsDepth (n : Int) : Prop := 1 ≤ n ∧ n ≤ deepestLimit

/-- A text is taken for an integer in a range. -/
def Spells (range : Int → Prop) (text : String) : Prop := ∃ n, coerced? text = some n ∧ range n

/-- One environment on top of another, whose entries win. -/
def overlaid (earlier later : String → Option String) : String → Option String :=
  fun name => (later name).or (earlier name)

/-- The environment without entries. -/
def emptyEnviron : String → Option String := fun _ => none

/-- Settings for both limits and nothing else. -/
def bothSettings (length depth : Datum) : Datum :=
  .dictionary [(.text lengthName, length), (.text depthName, depth)]

variable {base limits final : Limits} {environ earlier later : String → Option String}
  {failure : Failure} {present value : Nat} {given : Option String} {length depth : Datum}

/-! ## Both settings -/

/-- Settings for both limits give the limits that they stand for. -/
theorem ofSettings_both_eq_ok_iff :
    ofSettings (bothSettings length depth) = .ok limits ↔
      length.toInteger = .ok (limits.maxLength : Int) ∧
        depth.toInteger = .ok (limits.maxDepth : Int) := by
  rw [bothSettings, ofSettings_eq_ok_iff]
  constructor
  · rintro ⟨hlength, hdepth, _⟩
    exact ⟨hlength, hdepth⟩
  · rintro ⟨hlength, hdepth⟩
    exact ⟨hlength, hdepth, by simp⟩

/-! ## One limit -/

/-- What a limit is overridden with is taken for what it becomes. -/
theorem overridden_eq_ok_iff {n : Int} :
    (overridden present given).toInteger = .ok n ↔ updated present given = some n := by
  cases given with
  | none => rw [updated, overridden, Datum.toInteger, Except.ok.injEq, Option.some.injEq]
  | some text =>
    change (Datum.text text).toInteger = _ ↔ (Datum.text text).toInteger.toOption = _
    cases (Datum.text text).toInteger with
    | error complaint => simp [Except.toOption]
    | ok m => simp [Except.toOption]

/-- A limit in its range is still there after an override if the text, where there is one, spells
an integer in the range. -/
theorem exists_updated_iff {range : Int → Prop} (h : range present) :
    (∃ n, updated present given = some n ∧ range n) ↔
      ∀ text, given = some text → Spells range text := by
  cases given with
  | none => exact iff_of_true ⟨present, rfl, h⟩ nofun
  | some text =>
    constructor
    · intro hspells _ htext
      cases htext
      exact hspells
    · intro hspells
      exact hspells text rfl

/-- A limit that has been overridden stays as it is when it is overridden again in the same way. -/
theorem updated_again (h : updated present given = some (value : Int)) :
    updated value given = some (value : Int) := by
  cases given with
  | none => rfl
  | some text => exact h

/-- Of two overrides the later one counts. -/
theorem updated_or {given' : Option String} {n : Int}
    (h : updated present given = some (value : Int)) (h' : updated value given' = some n) :
    updated present (given'.or given) = some n := by
  cases given' with
  | none => exact h.trans h'
  | some text => exact h'

/-! ## Both limits -/

private theorem ofSettings_both_self (limits : Limits) :
    ofSettings (bothSettings (.integer limits.maxLength) (.integer limits.maxDepth)) =
      .ok limits :=
  ofSettings_both_eq_ok_iff.2 ⟨rfl, rfl⟩

/-- Limits are overridden by the validation of what they are overridden with, also if there is
nothing to override them. -/
theorem override_eq_ofSettings (base : Limits) (environ : String → Option String) :
    base.override environ =
      ofSettings (bothSettings (overridden base.maxLength (environ lengthVariable))
        (overridden base.maxDepth (environ depthVariable))) := by
  rw [override]
  split
  · rename_i hlength hdepth
    rw [hlength, hdepth]
    exact (ofSettings_both_self base).symm
  · rfl

/-- Limits are overridden one by one. -/
theorem override_eq_ok_iff :
    base.override environ = .ok limits ↔
      updated base.maxLength (environ lengthVariable) = some (limits.maxLength : Int) ∧
        updated base.maxDepth (environ depthVariable) = some (limits.maxDepth : Int) := by
  rw [override_eq_ofSettings, ofSettings_both_eq_ok_iff, overridden_eq_ok_iff, overridden_eq_ok_iff]

/-- Limits can be overridden if every text there is for one of them spells an integer in its
range. -/
theorem exists_override_eq_ok_iff :
    (∃ limits, base.override environ = .ok limits) ↔
      (∀ text, environ lengthVariable = some text → Spells IsLength text) ∧
        ∀ text, environ depthVariable = some text → Spells IsDepth text := by
  have hbase : IsLength base.maxLength := Int.ofNat_le.2 base.one_le_maxLength
  have hbase' : IsDepth base.maxDepth := base.maxDepth_inRange
  rw [← exists_updated_iff hbase, ← exists_updated_iff hbase']
  constructor
  · rintro ⟨limits, h⟩
    obtain ⟨hlength, hdepth⟩ := override_eq_ok_iff.1 h
    exact ⟨⟨_, hlength, Int.ofNat_le.2 limits.one_le_maxLength⟩, _, hdepth,
      limits.maxDepth_inRange⟩
  · rintro ⟨⟨length, hlength, hpos⟩, depth, hdepth, hone, hle⟩
    obtain ⟨maxLength, rfl⟩ := Int.eq_ofNat_of_zero_le (Int.le_trans (by decide) hpos)
    obtain ⟨maxDepth, rfl⟩ := Int.eq_ofNat_of_zero_le (Int.le_trans (by decide) hone)
    exact ⟨⟨maxLength, maxDepth, Int.ofNat_le.1 hpos, Int.ofNat_le.1 hone, Int.ofNat_le.1 hle⟩,
      override_eq_ok_iff.2 ⟨hlength, hdepth⟩⟩

/-- To override limits fails by validation only. -/
theorem invalid_of_override (h : base.override environ = .error failure) :
    ∃ problems, failure = .invalid problems := by
  rw [override_eq_ofSettings] at h
  exact invalid_of_ofSettings h

/-- Validation fails exactly if there is a text for a limit that spells no integer in its range. -/
theorem override_invalid_iff :
    (∃ problems, base.override environ = .error (.invalid problems)) ↔
      (∃ text, environ lengthVariable = some text ∧ ¬Spells IsLength text) ∨
        ∃ text, environ depthVariable = some text ∧ ¬Spells IsDepth text := by
  have hfails : (∃ problems, base.override environ = .error (.invalid problems)) ↔
      ¬∃ limits, base.override environ = .ok limits := by
    cases h : base.override environ with
    | ok limits => exact iff_of_false nofun (not_not_intro ⟨limits, rfl⟩)
    | error failure =>
      obtain ⟨problems, rfl⟩ := invalid_of_override h
      exact iff_of_true ⟨problems, rfl⟩ nofun
  rw [hfails, exists_override_eq_ok_iff]
  simp only [Classical.not_and_iff_not_or_not, Classical.not_forall, exists_prop]

/-- Only the entries for the limits count. -/
theorem override_congr (hlength : later lengthVariable = earlier lengthVariable)
    (hdepth : later depthVariable = earlier depthVariable) :
    base.override later = base.override earlier := by
  rw [override, override, hlength, hdepth]

private theorem override_again (h : base.override environ = .ok limits) :
    limits.override environ = .ok limits := by
  obtain ⟨hlength, hdepth⟩ := override_eq_ok_iff.1 h
  exact override_eq_ok_iff.2 ⟨updated_again hlength, updated_again hdepth⟩

/-- To override limits twice is to override them once. -/
theorem override_bind_override (base : Limits) (environ : String → Option String) :
    (base.override environ >>= fun limits => limits.override environ) = base.override environ := by
  cases h : base.override environ with
  | error failure => rfl
  | ok limits => exact override_again h

/-- Two environments one after the other override limits as the later one on top of the other
does. -/
theorem override_overlaid (h : base.override earlier = .ok limits)
    (h' : limits.override later = .ok final) :
    base.override (overlaid earlier later) = .ok final := by
  obtain ⟨hlength, hdepth⟩ := override_eq_ok_iff.1 h
  obtain ⟨hlength', hdepth'⟩ := override_eq_ok_iff.1 h'
  exact override_eq_ok_iff.2 ⟨updated_or hlength hlength', updated_or hdepth hdepth'⟩

end Criterion.Limits
