import Criterion.Proofs.Failure.InOrder
import Criterion.Value.Environment
import Mathlib.Algebra.Group.Nat.Defs

/-!
# The variables that a caller supplies

A dictionary is accepted if every key is a text and every item is a truth value, a number that is
not too large or a wrapped value. An accepted dictionary becomes an environment, in which a variable
has the value of the item under its name; whatever else is supplied is rejected as unsupported,
unless the key to be reported cannot be written. To put a supported item under a name keeps a
dictionary accepted and changes nothing under other names.
-/

namespace Criterion

/-- A datum that has a value: an integer has one unless it is beyond all doubles. -/
def Datum.IsSupported : Datum → Prop
  | .boolean _ | .float _ | .wrapped _ => True
  | .integer n => Binary64.ofInt? n ≠ none
  | _ => False

/-- A dictionary has an item under a name. -/
def Datum.Supplies (entries : List (Datum × Datum)) (name : String) : Prop :=
  ∃ raw, (.text name, raw) ∈ entries

/-- The words for the type of a datum that has no value. -/
def Datum.refusedType : Datum → String
  | .integer _ => "int (out of float range)"
  | d => d.typeName

/-- Every key of a dictionary is a name and every item has a value. -/
def Environment.Accepted (entries : List (Datum × Datum)) : Prop :=
  ∀ entry ∈ entries, (∃ name, entry.1 = .text name) ∧ entry.2.IsSupported

/-- The first entry of a dictionary that has to be reported has a key that cannot be written. -/
def Environment.Unreportable (supplied : Datum) : Prop :=
  ∃ before key raw after, supplied = .dictionary (before ++ (key, raw) :: after) ∧
    Accepted before ∧ key.literal? = none

variable {name other typeName : String} {key raw supplied : Datum} {entry : Datum × Datum}
  {entries entries' : List (Datum × Datum)} {bindings : List (String × Value)} {failure : Failure}

/-- A supported datum has a value under every name. -/
theorem Datum.IsSupported.exists_value (h : raw.IsSupported) (key : Datum) :
    ∃ v, Value.ofDatum key raw = .ok v := by
  cases raw with
  | boolean b => exact ⟨.boolean b, rfl⟩
  | float x => exact ⟨.number x, rfl⟩
  | wrapped v => exact ⟨v, rfl⟩
  | integer n =>
      cases hx : Binary64.ofInt? n with
      | none => exact absurd hx h
      | some x => exact ⟨.number x, by rw [Value.ofDatum, hx]; rfl⟩
  | _ => contradiction

/-- An integer has no literal from a power of ten on. -/
theorem Datum.integerLiteral?_eq_none_iff {n : Int} :
    integerLiteral? n = none ↔ 10 ^ longestDecimal ≤ n.natAbs := by
  have hlength : (Decimal.digitChars n.natAbs).length ≤ longestDecimal ↔
      n.natAbs < 10 ^ longestDecimal := Nat.length_toDigits_le_iff (by decide) (by decide)
  rw [integerLiteral?, ite_eq_right_iff, hlength, ← Nat.not_lt]
  simp

/-- The least natural number that has no literal. -/
def Datum.leastUnwritten : Datum := .integer (10 ^ longestDecimal : Nat)

private theorem Datum.literal?_leastUnwritten : leastUnwritten.literal? = none :=
  integerLiteral?_eq_none_iff.2 (Nat.le_refl _)

/-- What is supplied under a key that can be written is rejected. -/
theorem rejectVariable_of_some {α : Type} {literal : String} (h : key.literal? = some literal) :
    (rejectVariable key typeName : Except Failure α) =
      reject (.unsupportedVariable key typeName) none := by
  rw [rejectVariable, h]

/-- What is supplied under a key that cannot be written fails for the length of an integer. -/
theorem rejectVariable_of_none {α : Type} (h : key.literal? = none) :
    (rejectVariable key typeName : Except Failure α) = .error (.misuse (.longInteger none)) := by
  rw [rejectVariable, h]

theorem rejectVariable_ne_ok {α : Type} (key : Datum) (typeName : String) (a : α) :
    rejectVariable key typeName ≠ .ok a := by
  cases h : key.literal? with
  | none =>
    rw [rejectVariable_of_none h]
    exact nofun
  | some literal =>
    rw [rejectVariable_of_some h]
    exact nofun

/-- A datum without a value is refused under the name that it is supplied for. -/
theorem Value.ofDatum_of_not_isSupported (h : ¬raw.IsSupported) :
    Value.ofDatum key raw = rejectVariable key raw.refusedType := by
  cases raw with
  | boolean _ | float _ | wrapped _ => exact absurd trivial h
  | integer n =>
    rw [ofDatum, not_not.1 h]
    rfl
  | _ => rfl

namespace Environment

/-! ## One entry -/

/-- An entry whose key is no name is rejected for its key. -/
theorem bindingOf_of_ne_text (h : ∀ name, key ≠ .text name) (raw : Datum) :
    bindingOf (key, raw) = rejectVariable key ("key of type " ++ key.typeName) := by
  cases key with
  | text name => exact absurd rfl (h name)
  | _ => rfl

/-- An entry is bound if its key is a name and its item has a value. -/
theorem exists_bindingOf_iff :
    (∃ binding, bindingOf entry = .ok binding) ↔
      (∃ name, entry.1 = .text name) ∧ entry.2.IsSupported := by
  obtain ⟨key, raw⟩ := entry
  constructor
  · rintro ⟨binding, h⟩
    by_cases hkey : ∃ name, key = .text name
    · obtain ⟨name, rfl⟩ := hkey
      refine ⟨⟨name, rfl⟩, not_not.1 fun hraw => ?_⟩
      rw [bindingOf, Value.ofDatum_of_not_isSupported hraw] at h
      contradiction
    · rw [bindingOf_of_ne_text (not_exists.1 hkey)] at h
      exact absurd h (rejectVariable_ne_ok key _ binding)
  · rintro ⟨⟨name, hkey⟩, hraw⟩
    obtain rfl : key = .text name := hkey
    obtain ⟨v, hv⟩ := hraw.exists_value (.text name)
    refine ⟨(name, v), ?_⟩
    rw [bindingOf, hv]
    rfl

/-- An entry that is not bound is rejected under its key. -/
theorem bindingOf_eq_rejectVariable (h : ¬∃ binding, bindingOf entry = .ok binding) :
    ∃ typeName, bindingOf entry = rejectVariable entry.1 typeName := by
  obtain ⟨key, raw⟩ := entry
  by_cases hkey : ∃ name, key = .text name
  · obtain ⟨name, rfl⟩ := hkey
    have hraw : ¬raw.IsSupported := fun hraw => h (exists_bindingOf_iff.2 ⟨⟨name, rfl⟩, hraw⟩)
    refine ⟨raw.refusedType, ?_⟩
    rw [bindingOf, Value.ofDatum_of_not_isSupported hraw]
    rfl
  · exact ⟨_, bindingOf_of_ne_text (not_exists.1 hkey) raw⟩

/-- An entry fails for the length of an integer exactly if its key cannot be written. -/
theorem bindingOf_eq_longInteger_iff :
    bindingOf entry = .error (.misuse (.longInteger none)) ↔ entry.1.literal? = none := by
  by_cases hbound : ∃ binding, bindingOf entry = .ok binding
  · obtain ⟨⟨name, hname⟩, _⟩ := exists_bindingOf_iff.1 hbound
    obtain ⟨binding, hbinding⟩ := hbound
    rw [hbinding, hname]
    exact iff_of_false nofun nofun
  · obtain ⟨typeName, heq⟩ := bindingOf_eq_rejectVariable hbound
    rw [heq]
    cases hkey : entry.1.literal? with
    | none => exact iff_of_true (rejectVariable_of_none hkey) rfl
    | some literal =>
      rw [rejectVariable_of_some hkey]
      exact iff_of_false nofun nofun

/-! ## Accepted dictionaries -/

theorem accepted_iff :
    Accepted entries ↔ ∀ entry ∈ entries, ∃ binding, bindingOf entry = .ok binding := by
  simp only [exists_bindingOf_iff, Accepted]

/-- What an environment knows of a dictionary that it is made from: the converted items. -/
def Holds (env : Environment) (entries : List (Datum × Datum)) : Prop :=
  ∀ name, (Datum.lookup? entries name).map (Value.ofDatum (.text name)) =
    (env.find? name).map .ok

/-- The bindings made from the entries of a dictionary hold its items. -/
theorem holds_of_mapM (h : entries.mapM bindingOf = .ok bindings) : Holds ⟨bindings⟩ entries := by
  intro name
  induction entries generalizing bindings with
  | nil =>
      cases h
      rfl
  | cons entry entries ih =>
      obtain ⟨first, rest, hfirst, hrest, rfl⟩ := mapM_cons_eq_ok_iff.1 h
      obtain ⟨key, raw⟩ := entry
      obtain ⟨⟨s, hkey⟩, _⟩ := exists_bindingOf_iff.1 ⟨first, hfirst⟩
      obtain rfl : key = .text s := hkey
      rw [bindingOf] at hfirst
      cases hv : Value.ofDatum (.text s) raw with
      | error failure =>
        rw [hv] at hfirst
        contradiction
      | ok v =>
        rw [hv] at hfirst
        cases hfirst
        by_cases hname : s = name
        · subst hname
          simp [Datum.lookup?, find?, hv]
        · have hlookup : Datum.lookup? ((.text s, raw) :: entries) name =
              Datum.lookup? entries name := by
            simp [Datum.lookup?, hname]
          have hfind : find? ⟨(s, v) :: rest⟩ name = find? ⟨rest⟩ name := by
            simp [find?, hname]
          rw [hlookup, hfind, ih hrest]

/-- An item is found under a name exactly if the dictionary supplies one. -/
theorem isSome_lookup?_iff : (Datum.lookup? entries name).isSome ↔ Datum.Supplies entries name := by
  rw [Datum.lookup?, Option.isSome_map, List.find?_isSome]
  constructor
  · rintro ⟨⟨key, raw⟩, hmem, hkey⟩
    cases key with
    | text s =>
      obtain rfl : s = name := eq_of_beq hkey
      exact ⟨raw, hmem⟩
    | _ => contradiction
  · rintro ⟨raw, hmem⟩
    exact ⟨_, hmem, beq_self_eq_true name⟩

/-- An accepted dictionary is made into an environment that holds its items. -/
theorem Accepted.exists_environment (h : Accepted entries) :
    ∃ env : Environment, ofDatum (.dictionary entries) = .ok env ∧ env.Holds entries := by
  obtain ⟨bindings, hbindings⟩ := exists_mapM_eq_ok_iff.2 (accepted_iff.1 h)
  refine ⟨⟨bindings⟩, ?_, holds_of_mapM hbindings⟩
  rw [ofDatum, hbindings]
  rfl

/-! ## Rejected variables -/

theorem ofDatum_eq_error_iff_mapM :
    ofDatum (.dictionary entries) = .error failure ↔ entries.mapM bindingOf = .error failure := by
  rw [ofDatum]
  cases entries.mapM bindingOf <;> simp [Bind.bind, Except.bind, pure, Except.pure]

/-- What cannot be an environment fails for the length of an integer exactly if the key to be
reported cannot be written. -/
theorem unreportable_iff :
    Unreportable supplied ↔ ofDatum supplied = .error (.misuse (.longInteger none)) := by
  have hdictionary (entries : List (Datum × Datum)) : Unreportable (.dictionary entries) ↔
      ofDatum (.dictionary entries) = .error (.misuse (.longInteger none)) := by
    rw [ofDatum_eq_error_iff_mapM, mapM_eq_error_iff]
    simp only [← accepted_iff, bindingOf_eq_longInteger_iff]
    constructor
    · rintro ⟨before, key, raw, after, h, hbefore, hkey⟩
      exact ⟨before, (key, raw), after, Datum.dictionary.inj h, hbefore, hkey⟩
    · rintro ⟨before, ⟨key, raw⟩, after, rfl, hbefore, hkey⟩
      exact ⟨before, key, raw, after, rfl, hbefore, hkey⟩
  cases supplied with
  | dictionary entries => exact hdictionary entries
  | _ => exact iff_of_false nofun nofun

/-- A dictionary whose first key is an integer without a literal cannot be reported. -/
theorem unreportable_leastUnwritten (raw : Datum) (entries : List (Datum × Datum)) :
    Unreportable (.dictionary ((.leastUnwritten, raw) :: entries)) :=
  ⟨[], .leastUnwritten, raw, entries, rfl, nofun, Datum.literal?_leastUnwritten⟩

/-- An accepted dictionary has nothing to be reported. -/
theorem Accepted.not_unreportable (h : Accepted entries) : ¬Unreportable (.dictionary entries) := by
  obtain ⟨env, henv, _⟩ := h.exists_environment
  rw [unreportable_iff, henv]
  exact nofun

/-- What cannot be an environment is rejected for a key and a type, unless the key cannot be
written. -/
theorem rejected_of_ofDatum (h : ofDatum supplied = .error failure)
    (hreport : ¬Unreportable supplied) :
    ∃ key typeName, failure = .rejected ⟨.unsupportedVariable key typeName, none⟩ := by
  rw [unreportable_iff] at hreport
  cases supplied with
  | null => contradiction
  | dictionary entries =>
    rw [ofDatum_eq_error_iff_mapM] at h hreport
    obtain ⟨before, entry, after, rfl, hbefore, hentry⟩ := mapM_eq_error_iff.1 h
    have hunbound : ¬∃ binding, bindingOf entry = .ok binding := by
      rw [hentry]
      exact nofun
    obtain ⟨typeName, heq⟩ := bindingOf_eq_rejectVariable hunbound
    cases hkey : entry.1.literal? with
    | none =>
      refine absurd (mapM_eq_error_iff.2 ⟨before, entry, after, rfl, hbefore, ?_⟩) hreport
      exact bindingOf_eq_longInteger_iff.2 hkey
    | some literal =>
      rw [heq, rejectVariable_of_some hkey] at hentry
      cases hentry
      exact ⟨_, _, rfl⟩
  | _ =>
    cases h
    exact ⟨_, _, rfl⟩

/-- What cannot be an environment is rejected for a key and a type, or fails for an integer of too
many digits. -/
theorem ofDatum_eq_error_cases (h : ofDatum supplied = .error failure) :
    (∃ key typeName, failure = .rejected ⟨.unsupportedVariable key typeName, none⟩) ∨
      failure = .misuse (.longInteger none) := by
  by_cases hreport : Unreportable supplied
  · rw [unreportable_iff.1 hreport] at h
    cases h
    exact .inr rfl
  · exact .inl (rejected_of_ofDatum h hreport)

end Environment

/-! ## Changed dictionaries -/

namespace Datum

theorem lookup?_cons_self (name : String) (raw : Datum) (entries : List (Datum × Datum)) :
    lookup? ((.text name, raw) :: entries) name = some raw := by
  simp [lookup?]

/-- An entry with another key is passed over. -/
theorem lookup?_cons_of_ne (h : key ≠ .text name) (raw : Datum) (entries : List (Datum × Datum)) :
    lookup? ((key, raw) :: entries) name = lookup? entries name := by
  cases key with
  | text s =>
    have hs : s ≠ name := fun hs => h (congrArg _ hs)
    simp [lookup?, hs]
  | _ => rfl

theorem same_text_iff : same key (.text name) ↔ key = .text name := by
  cases key <;> simp [same]

private theorem lookup?_replaced_of_ne (h : name ≠ other) (raw : Datum)
    (entries : List (Datum × Datum)) :
    lookup? (entries.map fun entry =>
      if same entry.1 (.text other) then (entry.1, raw) else entry) name =
        lookup? entries name := by
  induction entries with
  | nil => rfl
  | cons entry entries ih =>
    obtain ⟨key, item⟩ := entry
    rw [List.map_cons]
    by_cases hname : key = .text name
    · have hkeep : ¬ same key (.text other) := by
        rw [same_text_iff, hname, text.injEq]
        exact h
      subst hname
      simp only [if_neg hkeep, lookup?_cons_self]
    · rw [lookup?_cons_of_ne hname, ← ih]
      split <;> exact lookup?_cons_of_ne hname _ _

private theorem lookup?_added_of_ne (h : name ≠ other) (raw : Datum)
    (entries : List (Datum × Datum)) :
    lookup? (entries ++ [(.text other, raw)]) name = lookup? entries name := by
  induction entries with
  | nil => exact lookup?_cons_of_ne (fun hname => h (text.inj hname).symm) raw []
  | cons entry entries ih =>
    obtain ⟨key, item⟩ := entry
    rw [List.cons_append]
    by_cases hname : key = .text name
    · subst hname
      rw [lookup?_cons_self, lookup?_cons_self]
    · rw [lookup?_cons_of_ne hname, lookup?_cons_of_ne hname, ih]

/-- Putting in an item under one name leaves what is found under the others. -/
theorem lookup?_putEntry_of_ne (h : name ≠ other) (raw : Datum) (entries : List (Datum × Datum)) :
    lookup? (putEntry entries (.text other) raw) name = lookup? entries name := by
  rw [putEntry]
  split
  · exact lookup?_replaced_of_ne h raw entries
  · exact lookup?_added_of_ne h raw entries

/-- An item that is put in under a name is found there. -/
theorem lookup?_putEntry_self (name : String) (raw : Datum) (entries : List (Datum × Datum)) :
    lookup? (putEntry entries (.text name) raw) name = some raw := by
  rw [putEntry]
  induction entries with
  | nil => exact lookup?_cons_self name raw []
  | cons entry entries ih =>
    obtain ⟨key, item⟩ := entry
    by_cases hname : key = .text name
    · subst hname
      have hsame : same (.text name) (.text name) = true := same_text_iff.2 rfl
      simp only [List.any_cons, hsame, Bool.true_or, if_true, List.map_cons, lookup?_cons_self]
    · have hsame : same key (.text name) = false :=
        Bool.eq_false_iff.2 (mt same_text_iff.1 hname)
      rw [List.any_cons, hsame, Bool.false_or, ← ih]
      split
      · rw [List.map_cons, hsame, if_neg Bool.false_ne_true]
        exact lookup?_cons_of_ne hname item _
      · exact lookup?_cons_of_ne hname item _

end Datum

/-- A supported item can be put into an accepted dictionary under every name. -/
theorem Environment.Accepted.putEntry (h : Accepted entries) (name : String)
    (hraw : raw.IsSupported) : Accepted (Datum.putEntry entries (.text name) raw) := by
  rw [Datum.putEntry]
  split
  · intro entry hentry
    obtain ⟨old, hold, rfl⟩ := List.mem_map.1 hentry
    obtain ⟨hkey, hitem⟩ := h old hold
    split
    · exact ⟨hkey, hraw⟩
    · exact ⟨hkey, hitem⟩
  · intro entry hentry
    rcases List.mem_append.1 hentry with hold | hnew
    · exact h entry hold
    · obtain rfl := List.mem_singleton.1 hnew
      exact ⟨⟨name, rfl⟩, hraw⟩

end Criterion
