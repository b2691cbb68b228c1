import Criterion.Proofs.CommandLine.Binding
import Criterion.Proofs.Failure.InOrder
import Criterion.Proofs.Rule.Needs
import Criterion.Proofs.Value.Boundary

/-!
# The last binding of a name

Bindings are put into a dictionary one after the other, so that a name has its last binding there.
Which one that is depends neither on the order of bindings of different names nor on bindings that
later ones replace, and nothing else of a dictionary of variables has an effect on an evaluation.
-/

namespace Criterion

/-- A dictionary has an item under a name, which stands for a value. -/
def Datum.SuppliesValue (entries : List (Datum × Datum)) (name : String) (v : Value) : Prop :=
  ∃ d, lookup? entries name = some d ∧ d.StandsFor v

/-- The values of an environment are those of the dictionary that it is made from. -/
theorem Environment.Holds.find?_eq_some_iff {env : Environment} {entries : List (Datum × Datum)}
    {name : String} {v : Value} (h : env.Holds entries) :
    env.find? name = some v ↔ Datum.SuppliesValue entries name v := by
  have hmap : (env.find? name).map (Except.ok (ε := Failure)) = some (.ok v) ↔
      env.find? name = some v := by
    simp [Option.map_eq_some_iff]
  rw [← hmap, ← h name, Option.map_eq_some_iff]
  simp only [Value.ofDatum_eq_ok_iff, Datum.SuppliesValue]

namespace CommandLine

open Binding (parse)

/-- A text binds a name to a value: the first equals sign divides them, white space around either is
dropped, and something is left of the name. -/
inductive Binds : String → String → Value → Prop where
  | intro {name value : List Char} {v : Value} (hname : '=' ∉ name)
      (hne : Binding.trimmed name ≠ [])
      (hvalue : Binding.valueOf? (Binding.trimmed value) = some v) :
      Binds (String.ofList (name ++ '=' :: value)) (String.ofList (Binding.trimmed name)) v

/-- A text binds a name to some value. -/
def BindsName (text name : String) : Prop := ∃ v, Binds text name v

/-- A text binds no name. -/
def Malformed (text : String) : Prop := ∀ name, ¬BindsName text name

/-- The last of some texts that binds a name binds it to a value. -/
inductive BoundLast (name : String) (v : Value) : List String → Prop where
  | here {text : String} {texts : List String} (h : Binds text name v)
      (hlast : ∀ later ∈ texts, ¬BindsName later name) : BoundLast name v (text :: texts)
  | later {text : String} {texts : List String} (h : BoundLast name v texts) :
      BoundLast name v (text :: texts)

/-- A dictionary of variables gives each name the value of its last binding, and nothing to any
other name. -/
structure Collects (texts : List String) (entries : List (Datum × Datum)) : Prop where
  accepted : Environment.Accepted entries
  last : ∀ name v, Datum.SuppliesValue entries name v ↔ BoundLast name v texts

variable {text name name' : String} {v w : Value} {texts texts' : List String}
  {binding : Binding} {bindings : List Binding} {entries entries' : List (Datum × Datum)}

/-! ## One text -/

/-- A text is read as the binding that it is. -/
theorem parse_eq_ok_iff : parse text = .ok ⟨name, v⟩ ↔ Binds text name v := by
  constructor
  · intro h
    have hsplit := List.takeWhile_append_dropWhile (p := (· != '=')) (l := text.toList)
    have hname : '=' ∉ text.toList.takeWhile (· != '=') := by
      intro hmem
      have hkept := List.mem_takeWhile_imp hmem
      contradiction
    rw [parse] at h
    cases hdrop : text.toList.dropWhile (· != '=') with
    | nil =>
      rw [hdrop] at h
      contradiction
    | cons c value =>
      have hc : c = '=' := by
        simpa [hdrop] using List.head?_dropWhile_not (· != '=') text.toList
      subst hc
      rw [hdrop] at h hsplit
      dsimp only at h
      split at h
      · contradiction
      · rename_i hne
        split at h
        · rename_i hvalue
          cases h
          have hbinds := Binds.intro hname (mt List.isEmpty_iff.2 hne) hvalue
          rwa [hsplit, String.ofList_toList] at hbinds
        · contradiction
  · rintro ⟨hname, hne, hvalue⟩
    exact Binding.parse_of_valueOf? hname hne hvalue

theorem Binds.unique (h : Binds text name v) (h' : Binds text name' w) : name = name' ∧ v = w := by
  have hread := parse_eq_ok_iff.2 h
  rw [parse_eq_ok_iff.2 h', Except.ok.injEq, Binding.mk.injEq] at hread
  exact ⟨hread.1.symm, hread.2.symm⟩

/-- A text is read unless it is malformed. -/
theorem exists_parse_eq_ok_iff : (∃ binding, parse text = .ok binding) ↔ ¬Malformed text := by
  rw [Malformed, Classical.not_forall_not]
  constructor
  · rintro ⟨⟨name, v⟩, h⟩
    exact ⟨name, v, parse_eq_ok_iff.1 h⟩
  · rintro ⟨name, v, h⟩
    exact ⟨⟨name, v⟩, parse_eq_ok_iff.2 h⟩

theorem exists_mapM_parse_iff :
    (∃ bindings, texts.mapM parse = .ok bindings) ↔ ∀ text ∈ texts, ¬Malformed text := by
  simp only [exists_mapM_eq_ok_iff, exists_parse_eq_ok_iff]

private theorem any_parse_iff :
    (parse text).toOption.any (fun binding => binding.name == name) ↔ BindsName text name := by
  cases hread : parse text with
  | error e =>
    refine iff_of_false nofun ?_
    rintro ⟨v, h⟩
    rw [parse_eq_ok_iff.2 h] at hread
    contradiction
  | ok binding =>
    obtain ⟨name', v⟩ := binding
    have hbinds := parse_eq_ok_iff.1 hread
    change (name' == name) = true ↔ _
    rw [beq_iff_eq]
    constructor
    · rintro rfl
      exact ⟨v, hbinds⟩
    · rintro ⟨w, h⟩
      exact (hbinds.unique h).1

instance (text name : String) : Decidable (BindsName text name) :=
  decidable_of_iff _ any_parse_iff

/-! ## Many texts -/

/-- The last of some texts that binds a name is the first one only if no other one binds it. -/
theorem boundLast_cons_iff :
    BoundLast name v (text :: texts) ↔
      BoundLast name v texts ∨ Binds text name v ∧ ∀ later ∈ texts, ¬BindsName later name := by
  constructor
  · intro h
    cases h with
    | here h hlast => exact .inr ⟨h, hlast⟩
    | later h => exact .inl h
  · rintro (h | ⟨h, hlast⟩)
    · exact .later h
    · exact .here h hlast

/-- A first text does not count if another one binds the name, or if it does not bind it itself. -/
theorem boundLast_cons_of_not
    (h : BindsName text name → ∃ later ∈ texts, BindsName later name) :
    BoundLast name v (text :: texts) ↔ BoundLast name v texts := by
  rw [boundLast_cons_iff, or_iff_left]
  rintro ⟨hbinds, hlast⟩
  obtain ⟨later, hmem, hlater⟩ := h ⟨v, hbinds⟩
  exact hlast later hmem hlater

/-! ## The dictionary -/

/-- The datum of a binding stands for its value. -/
theorem Binding.standsFor (binding : Binding) : binding.datum.StandsFor binding.value := by
  obtain ⟨name, v⟩ := binding
  cases v with
  | number x => exact .float x
  | boolean b => exact .boolean b

/-- The datum of a binding stands for no other value. -/
theorem Binding.standsFor_iff : binding.datum.StandsFor v ↔ v = binding.value := by
  have hvalue : Value.ofDatum .null binding.datum = .ok binding.value :=
    Value.ofDatum_eq_ok_iff.2 binding.standsFor
  have hiff : Value.ofDatum .null binding.datum = .ok v ↔ binding.datum.StandsFor v :=
    Value.ofDatum_eq_ok_iff
  rw [← hiff, hvalue, Except.ok.injEq, eq_comm]

theorem Binding.isSupported_datum (binding : Binding) : binding.datum.IsSupported :=
  Datum.isSupported_iff.2 ⟨_, binding.standsFor⟩

/-- A binding that is put in gives its name its value and leaves other names as they are. -/
theorem suppliesValue_putEntry_iff :
    Datum.SuppliesValue (Datum.putEntry entries (.text binding.name) binding.datum) name v ↔
      (name = binding.name ∧ v = binding.value) ∨
        name ≠ binding.name ∧ Datum.SuppliesValue entries name v := by
  rw [Datum.SuppliesValue]
  by_cases hname : name = binding.name
  · subst hname
    simp [Datum.lookup?_putEntry_self, Binding.standsFor_iff]
  · simp [Datum.lookup?_putEntry_of_ne hname, Datum.SuppliesValue, hname]

/-- Put bindings into a dictionary one after the other. -/
def putBindings (entries : List (Datum × Datum)) (bindings : List Binding) :
    List (Datum × Datum) :=
  bindings.foldl (fun done binding => Datum.putEntry done (.text binding.name) binding.datum)
    entries

theorem toDatum_eq_putBindings (bindings : List Binding) :
    Binding.toDatum bindings = .dictionary (putBindings [] bindings) := by
  rw [Binding.toDatum, Datum.ofEntries, List.foldl_map, putBindings]

/-- A dictionary of variables stays one when bindings are put in. -/
theorem accepted_putBindings (h : Environment.Accepted entries) (bindings : List Binding) :
    Environment.Accepted (putBindings entries bindings) := by
  induction bindings generalizing entries with
  | nil => exact h
  | cons binding bindings ih => exact ih (h.putEntry binding.name binding.isSupported_datum)

/-- The variables of a list of bindings have nothing to be reported. -/
theorem not_unreportable_toDatum (bindings : List Binding) :
    ¬Environment.Unreportable (Binding.toDatum bindings) := by
  rw [toDatum_eq_putBindings]
  exact (accepted_putBindings (List.forall_mem_nil _) bindings).not_unreportable

/-- The bindings that are put in give each name the value of its last binding and leave names
without one as they are. -/
theorem suppliesValue_putBindings_iff (h : texts.mapM parse = .ok bindings) :
    Datum.SuppliesValue (putBindings entries bindings) name v ↔
      BoundLast name v texts ∨
        (∀ text ∈ texts, ¬BindsName text name) ∧ Datum.SuppliesValue entries name v := by
  -- The dictionary is arbitrary: the first binding is in it before the others are put in.
  induction texts generalizing entries bindings with
  | nil =>
    cases h
    refine ⟨fun hv => .inr ⟨nofun, hv⟩, ?_⟩
    rintro (hv | ⟨_, hv⟩)
    · contradiction
    · exact hv
  | cons text texts ih =>
    obtain ⟨binding, others, hbinding, hothers, rfl⟩ := mapM_cons_eq_ok_iff.1 h
    have hbinds : Binds text binding.name binding.value := parse_eq_ok_iff.1 hbinding
    have hname : BindsName text name ↔ name = binding.name := by
      refine ⟨fun ⟨_, hw⟩ => (hw.unique hbinds).1, ?_⟩
      rintro rfl
      exact ⟨_, hbinds⟩
    have hvalue : Binds text name v ↔ name = binding.name ∧ v = binding.value := by
      refine ⟨fun hw => hw.unique hbinds, ?_⟩
      rintro ⟨rfl, rfl⟩
      exact hbinds
    change Datum.SuppliesValue (putBindings (Datum.putEntry _ _ _) others) name v ↔ _
    rw [ih hothers, suppliesValue_putEntry_iff, boundLast_cons_iff, List.forall_mem_cons, hname,
      hvalue]
    tauto

/-- Bindings are collected by the dictionary that they are put into. -/
theorem collects_putBindings (h : texts.mapM parse = .ok bindings) :
    Collects texts (putBindings [] bindings) := by
  have hempty : Environment.Accepted [] := List.forall_mem_nil _
  refine ⟨accepted_putBindings hempty bindings, fun name v => ?_⟩
  rw [suppliesValue_putBindings_iff h, or_iff_left]
  rintro ⟨_, d, hd, _⟩
  contradiction

/-- Bindings can be collected unless one of them is malformed. -/
theorem exists_collects (h : ∀ text ∈ texts, ¬Malformed text) :
    ∃ entries, Collects texts entries := by
  obtain ⟨bindings, hread⟩ := exists_mapM_parse_iff.2 h
  exact ⟨_, collects_putBindings hread⟩

/-- It makes no difference to an evaluation which dictionary collects the bindings. -/
theorem Collects.evaluate_eq (h : Collects texts entries) (h' : Collects texts entries')
    (limits : Limits) (source : String) :
    evaluate limits source (.dictionary entries) =
      evaluate limits source (.dictionary entries') := by
  refine evaluate_congr h.accepted h'.accepted fun rule _ => ?_
  refine rule.run_congr h.accepted h'.accepted fun name _ => ?_
  obtain ⟨env, _, hholds⟩ := h.accepted.exists_environment
  obtain ⟨env', _, hholds'⟩ := h'.accepted.exists_environment
  rw [hholds name, hholds' name]
  congr 1
  ext v
  rw [hholds.find?_eq_some_iff, hholds'.find?_eq_some_iff, h.last, h'.last]

/-! ## Texts rearranged -/

/-- Texts in another order, in which those that bind the same name follow each other as before. -/
structure Reordered (texts texts' : List String) : Prop where
  perm : texts.Perm texts'
  order : ∀ name, texts.filter (BindsName · name) = texts'.filter (BindsName · name)

/-- Texts without one that binds a name which a later one binds again. -/
inductive Replaced : List String → List String → Prop where
  | intro {before after : List String} {text name : String} (h : BindsName text name)
      (hlater : ∃ later ∈ after, BindsName later name) :
      Replaced (before ++ text :: after) (before ++ after)

/-- Texts that bind each name to the same value in the end and are malformed alike. -/
structure SameBindings (texts texts' : List String) : Prop where
  malformed : (∃ text ∈ texts, Malformed text) ↔ ∃ text ∈ texts', Malformed text
  last : ∀ name v, BoundLast name v texts ↔ BoundLast name v texts'

/-- The last binding of a name is the last one of those that bind it. -/
theorem boundLast_filter_iff :
    BoundLast name v (texts.filter (BindsName · name)) ↔ BoundLast name v texts := by
  induction texts with
  | nil => rfl
  | cons text texts ih =>
    by_cases hname : BindsName text name
    · have hlast : (∀ later ∈ texts.filter (BindsName · name), ¬BindsName later name) ↔
          ∀ later ∈ texts, ¬BindsName later name := by
        simp [List.mem_filter]
      rw [List.filter_cons_of_pos (by simpa using hname), boundLast_cons_iff, boundLast_cons_iff,
        ih, hlast]
    · rw [List.filter_cons_of_neg (by simpa using hname), ih,
        boundLast_cons_of_not fun h => absurd h hname]

/-- In another order, texts bind each name as before and are malformed as before. -/
theorem Reordered.sameBindings (h : Reordered texts texts') : SameBindings texts texts' where
  malformed := by simp only [h.perm.mem_iff]
  last name v := by rw [← boundLast_filter_iff, h.order name, boundLast_filter_iff]

/-- What is in front of some texts counts alike if they bind a name alike. -/
private theorem boundLast_append_congr (before : List String)
    (h : BoundLast name v texts ↔ BoundLast name v texts')
    (hbound : (∃ text ∈ texts, BindsName text name) ↔ ∃ text ∈ texts', BindsName text name) :
    BoundLast name v (before ++ texts) ↔ BoundLast name v (before ++ texts') := by
  induction before with
  | nil => exact h
  | cons first before ih =>
    have hlast : (∀ later ∈ before ++ texts, ¬BindsName later name) ↔
        ∀ later ∈ before ++ texts', ¬BindsName later name := by
      simp only [List.forall_mem_append]
      have hnone := not_congr hbound
      push Not at hnone
      rw [hnone]
    rw [List.cons_append, List.cons_append, boundLast_cons_iff, boundLast_cons_iff, ih, hlast]

/-- Texts without a replaced one bind each name as before and are malformed as before. -/
theorem Replaced.sameBindings (h : Replaced texts texts') : SameBindings texts texts' := by
  obtain @⟨before, after, text, name, hname, hlater⟩ := h
  have hfine : ¬Malformed text := fun hmalformed => hmalformed name hname
  refine ⟨by simp [or_and_right, exists_or, hfine], fun other v => ?_⟩
  -- The text binds no other name than the one that is bound again.
  have hreplaced : BindsName text other → ∃ later ∈ after, BindsName later other := by
    rintro ⟨w, hw⟩
    obtain ⟨u, hu⟩ := hname
    rwa [(hw.unique hu).1]
  refine boundLast_append_congr before (boundLast_cons_of_not hreplaced) ?_
  rw [List.exists_mem_cons_iff, or_iff_right_of_imp hreplaced]

theorem SameBindings.collects (h : SameBindings texts texts') (hcollects : Collects texts entries) :
    Collects texts' entries :=
  ⟨hcollects.accepted, fun name v => (hcollects.last name v).trans (h.last name v)⟩

end CommandLine

end Criterion
