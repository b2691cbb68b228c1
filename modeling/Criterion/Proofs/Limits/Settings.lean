import Criterion.Limits.Basic

/-!
# What settings give

Settings are valid if each limit that they set is written as an integer in its range and if they set
nothing else. They then give the limits that are set and the default ones in place of the others.
Validation accepts exactly these settings.
-/

namespace Criterion.Limits

/-- A limit is what a setting is taken for, or the default one where the setting is absent. -/
def SetTo (settings : List (Datum × Datum)) (name : String) (absent value : Nat) : Prop :=
  match Datum.lookup? settings name with
  | some d => d.toInteger = .ok (value : Int)
  | none => value = absent

/-- Settings set nothing but limits, and these are the given ones. -/
structure Gives (settings : List (Datum × Datum)) (limits : Limits) : Prop where
  length : SetTo settings lengthName defaultLength limits.maxLength
  depth : SetTo settings depthName defaultDepth limits.maxDepth
  known : ∀ entry ∈ settings, entry.1 = .text lengthName ∨ entry.1 = .text depthName

variable {limits : Limits} {failure : Failure} {d : Datum} {entry : Datum × Datum}
  {settings : List (Datum × Datum)}

/-- A length is the integer that it is made from. -/
theorem lengthOf_eq_ok_iff {n : Int} {a : Length} : lengthOf n = .ok a ↔ n = a.1 := by
  obtain ⟨m, hm⟩ := a
  change _ ↔ n = m
  rw [lengthOf]
  split
  · rw [Except.ok.injEq, Subtype.mk.injEq]
    omega
  · exact iff_of_false nofun (by omega)

/-- A depth is the integer that it is made from. -/
theorem depthOf_eq_ok_iff {n : Int} {a : Depth} : depthOf n = .ok a ↔ n = a.1 := by
  obtain ⟨m, hm⟩ := a
  change _ ↔ n = m
  rw [depthOf]
  split
  · split
    · rw [Except.ok.injEq, Subtype.mk.injEq]
      omega
    · exact iff_of_false nofun (by omega)
  · exact iff_of_false nofun (by omega)

/-- A datum gives a limit if it stands for the limit's integer. -/
theorem toInteger_bind_eq_ok_iff {α : Type} {ofInteger : Int → Except Complaint α} {a : α} {m : Int}
    (h : ∀ n, ofInteger n = .ok a ↔ n = m) :
    (d.toInteger >>= ofInteger) = .ok a ↔ d.toInteger = .ok m := by
  cases d.toInteger with
  | error complaint => exact iff_of_false nofun nofun
  | ok n =>
    rw [Except.ok.injEq, ← h]
    rfl

/-- A setting is read as the limit that it is set to. -/
theorem setting_eq_ok_iff {p : Nat → Prop} {name : String} {absent a : Subtype p}
    {ofInteger : Int → Except Complaint (Subtype p)} (h : ∀ n, ofInteger n = .ok a ↔ n = a.1) :
    setting settings name absent ofInteger = .ok a ↔ SetTo settings name absent.1 a.1 := by
  rw [setting, SetTo]
  cases Datum.lookup? settings name with
  | none => rw [Except.ok.injEq, Subtype.ext_iff, eq_comm]
  | some d => exact toInteger_bind_eq_ok_iff h

/-- An entry is no stranger if its key names a limit. -/
theorem stranger?_eq_none_iff :
    stranger? entry = none ↔ entry.1 = .text lengthName ∨ entry.1 = .text depthName := by
  obtain ⟨key, item⟩ := entry
  cases key with
  | text name => simp [stranger?, Classical.or_iff_not_imp_left]
  | _ => exact iff_of_false nofun (by simp)

/-- Settings are accepted with the limits that they give. -/
theorem ofSettings_eq_ok_iff : ofSettings (.dictionary settings) = .ok limits ↔
    Gives settings limits := by
  obtain ⟨maxLength, maxDepth, hlength, hdepth, hdeepest⟩ := limits
  have hl : setting settings lengthName lengthAbsent lengthOf = .ok ⟨maxLength, hlength⟩ ↔
      SetTo settings lengthName defaultLength maxLength :=
    setting_eq_ok_iff fun _ => lengthOf_eq_ok_iff
  have hd : setting settings depthName depthAbsent depthOf = .ok ⟨maxDepth, hdepth, hdeepest⟩ ↔
      SetTo settings depthName defaultDepth maxDepth :=
    setting_eq_ok_iff fun _ => depthOf_eq_ok_iff
  have hstrangers : settings.filterMap stranger? = [] ↔
      ∀ entry ∈ settings, entry.1 = .text lengthName ∨ entry.1 = .text depthName := by
    simp only [List.filterMap_eq_nil_iff, stranger?_eq_none_iff]
  have hgives : Gives settings ⟨maxLength, maxDepth, hlength, hdepth, hdeepest⟩ ↔
      setting settings lengthName lengthAbsent lengthOf = .ok ⟨maxLength, hlength⟩ ∧
        setting settings depthName depthAbsent depthOf = .ok ⟨maxDepth, hdepth, hdeepest⟩ ∧
          settings.filterMap stranger? = [] := by
    rw [hl, hd, hstrangers]
    exact ⟨fun ⟨h, h', h''⟩ => ⟨h, h', h''⟩, fun ⟨h, h', h''⟩ => ⟨h, h', h''⟩⟩
  rw [hgives, ofSettings]
  cases setting settings lengthName lengthAbsent lengthOf with
  | error complaint => exact iff_of_false nofun nofun
  | ok a =>
    cases setting settings depthName depthAbsent depthOf with
    | error complaint => exact iff_of_false nofun nofun
    | ok b =>
      cases settings.filterMap stranger? with
      | nil => simp [Subtype.ext_iff]
      | cons problem problems => exact iff_of_false nofun nofun

/-- Settings fail by validation only. -/
theorem invalid_of_ofSettings {settings : Datum} (h : ofSettings settings = .error failure) :
    ∃ problems, failure = .invalid problems := by
  unfold ofSettings at h
  split at h
  · dsimp only at h
    split at h <;> cases h
    exact ⟨_, rfl⟩
  · cases h
    exact ⟨_, rfl⟩

end Criterion.Limits
