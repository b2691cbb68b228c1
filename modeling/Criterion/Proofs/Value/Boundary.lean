import Criterion.Proofs.Failure.InOrder
import Criterion.Proofs.Rule.Evaluation
import Criterion.Proofs.Value.Integers
import Criterion.Proofs.Value.Supply

/-!
# Variables are converted all or none

The variables of a caller are converted before any expression is looked at. Either every entry is
a name with a datum that stands for a value, and the environment has the same names in the same
order, or the first entry that is not is reported, whatever is to be evaluated. It is reported with
its key written out; of a key that holds an integer of too many digits there is no report, but a
failure for that integer. A converted value stands for itself, so that it does not matter how often
a variable is converted.
-/

namespace Criterion

open Binary64 (overflowBound)

variable {key raw : Datum} {v : Value} {entry : Datum × Datum} {binding : String × Value}
  {entries entries' : List (Datum × Datum)} {env : Environment} {e : Rejection}
  {failure : Failure}

/-! ## One datum -/

/-- The value that a datum stands for. A truth value is a boolean although it counts as an integer,
and an integer has a double unless its magnitude reaches the bound. -/
inductive Datum.StandsFor : Datum → Value → Prop where
  | boolean (b : Bool) : StandsFor (.boolean b) (.boolean b)
  | integer {n : Int} (h : n.natAbs < overflowBound) :
      StandsFor (.integer n) (.number (Binary64.ofInt n))
  | float (x : Float) : StandsFor (.float x) (.number x)
  | wrapped (v : Value) : StandsFor (.wrapped v) v

/-- The kind of value that a datum is supplied for, if there is one. -/
def Datum.kind? : Datum → Option Kind
  | .boolean _ => some .boolean
  | .integer _ | .float _ => some .number
  | .wrapped v => some v.kind
  | _ => none

/-- A datum stands for a value of its own kind. -/
theorem Datum.StandsFor.kind_eq (h : raw.StandsFor v) : raw.kind? = some v.kind := by
  cases h <;> rfl

/-- Integers are supported below the bound. -/
theorem Datum.isSupported_integer_iff {n : Int} :
    (Datum.integer n).IsSupported ↔ n.natAbs < overflowBound := by
  constructor
  · intro h
    refine Nat.lt_of_not_le fun hle => ?_
    exact h (Binary64.ofInt?_of_le hle)
  · intro h
    change Binary64.ofInt? n ≠ none
    rw [Binary64.ofInt?_of_lt h]
    exact nofun

/-- A datum is supported if it stands for a value. -/
theorem Datum.isSupported_iff : raw.IsSupported ↔ ∃ v, raw.StandsFor v := by
  cases raw with
  | boolean b => exact iff_of_true trivial ⟨_, .boolean b⟩
  | float x => exact iff_of_true trivial ⟨_, .float x⟩
  | wrapped v => exact iff_of_true trivial ⟨v, .wrapped v⟩
  | integer n =>
    rw [isSupported_integer_iff]
    constructor
    · intro h
      exact ⟨_, .integer h⟩
    · rintro ⟨_, ⟨⟩⟩
      assumption
  | _ => exact iff_of_false id nofun

/-- What stands for a value is converted to it under every name. -/
theorem Datum.StandsFor.ofDatum_eq (h : raw.StandsFor v) (key : Datum) :
    Value.ofDatum key raw = .ok v := by
  cases h with
  | integer h => exact Value.ofDatum_integer key h
  | _ => rfl

/-- A datum is converted to the value that it stands for. -/
theorem Value.ofDatum_eq_ok_iff : Value.ofDatum key raw = .ok v ↔ raw.StandsFor v := by
  refine ⟨fun h => ?_, fun h => h.ofDatum_eq key⟩
  by_cases hraw : raw.IsSupported
  · obtain ⟨w, hw⟩ := Datum.isSupported_iff.1 hraw
    rw [hw.ofDatum_eq key, Except.ok.injEq] at h
    exact h ▸ hw
  · rw [ofDatum_of_not_isSupported hraw] at h
    exact absurd h (rejectVariable_ne_ok key _ _)

/-! ## One entry -/

namespace Environment

/-- An entry sets a variable to the value that its item stands for, which is of the item's kind. -/
structure Sets (entry : Datum × Datum) (binding : String × Value) : Prop where
  name : entry.1 = .text binding.1
  value : entry.2.StandsFor binding.2
  kind : entry.2.kind? = some binding.2.kind

/-- How an entry is refused: for its key, if that is no name, and else for its item. A key that
cannot be written is not reported. -/
inductive Refuses : Datum × Datum → Failure → Prop where
  | key {key : Datum} (h : ∀ name, key ≠ .text name) (hwritten : key.literal? ≠ none)
      (raw : Datum) : Refuses (key, raw)
        (.rejected ⟨.unsupportedVariable key ("key of type " ++ key.typeName), none⟩)
  | unwritten {key : Datum} (h : key.literal? = none) (raw : Datum) :
      Refuses (key, raw) (.misuse (.longInteger none))
  | item (name : String) {raw : Datum} (h : ¬raw.IsSupported) :
      Refuses (.text name, raw)
        (.rejected ⟨.unsupportedVariable (.text name) raw.refusedType, none⟩)

/-- A name with an item is bound to the value of the item. -/
theorem bindingOf_text_eq_ok_iff {s : String} :
    bindingOf (.text s, raw) = .ok binding ↔
      s = binding.1 ∧ Value.ofDatum (.text s) raw = .ok binding.2 := by
  obtain ⟨name, v⟩ := binding
  rw [bindingOf]
  cases Value.ofDatum (.text s) raw <;> simp [Bind.bind, Except.bind, pure, Except.pure]

/-- An entry becomes the binding that it sets. -/
theorem bindingOf_eq_ok_iff : bindingOf entry = .ok binding ↔ Sets entry binding := by
  obtain ⟨key, raw⟩ := entry
  constructor
  · intro h
    obtain ⟨⟨s, hkey⟩, _⟩ := exists_bindingOf_iff.1 ⟨binding, h⟩
    obtain rfl : key = .text s := hkey
    obtain ⟨rfl, hvalue⟩ := bindingOf_text_eq_ok_iff.1 h
    have hstands := Value.ofDatum_eq_ok_iff.1 hvalue
    exact ⟨rfl, hstands, hstands.kind_eq⟩
  · rintro ⟨hname, hvalue, _⟩
    obtain rfl : key = .text binding.1 := hname
    exact bindingOf_text_eq_ok_iff.2 ⟨rfl, Value.ofDatum_eq_ok_iff.2 hvalue⟩

/-- An entry that fails is refused, for its key if that is no name. -/
theorem refuses_of_bindingOf (h : bindingOf entry = .error failure) : Refuses entry failure := by
  obtain ⟨key, raw⟩ := entry
  by_cases hkey : ∃ name, key = .text name
  · obtain ⟨name, rfl⟩ := hkey
    have hraw : ¬raw.IsSupported := by
      intro hraw
      obtain ⟨binding, hbound⟩ : ∃ binding, bindingOf (.text name, raw) = .ok binding :=
        exists_bindingOf_iff.2 ⟨⟨name, rfl⟩, hraw⟩
      rw [h] at hbound
      contradiction
    rw [bindingOf, Value.ofDatum_of_not_isSupported hraw] at h
    cases h
    exact .item name hraw
  · rw [bindingOf_of_ne_text (not_exists.1 hkey)] at h
    cases hliteral : key.literal? with
    | none =>
      rw [rejectVariable_of_none hliteral] at h
      cases h
      exact .unwritten hliteral raw
    | some literal =>
      rw [rejectVariable_of_some hliteral] at h
      cases h
      exact .key (not_exists.1 hkey) (hliteral ▸ Option.some_ne_none literal) raw

/-- A refused entry fails as it is refused. -/
theorem Refuses.bindingOf_eq (h : Refuses entry failure) : bindingOf entry = .error failure := by
  cases h with
  | key h hwritten raw =>
    obtain ⟨literal, hliteral⟩ := Option.ne_none_iff_exists'.1 hwritten
    rw [bindingOf_of_ne_text h, rejectVariable_of_some hliteral]
    rfl
  | unwritten h raw => exact bindingOf_eq_longInteger_iff.2 h
  | item name h =>
    rw [bindingOf, Value.ofDatum_of_not_isSupported h]
    rfl

theorem bindingOf_eq_error_iff : bindingOf entry = .error failure ↔ Refuses entry failure :=
  ⟨refuses_of_bindingOf, Refuses.bindingOf_eq⟩

/-! ## Dictionaries -/

/-- A dictionary with some items replaced by the values that they stand for. -/
def Converted (entries entries' : List (Datum × Datum)) : Prop :=
  List.Forall₂ (fun entry entry' =>
    entry' = entry ∨ ∃ v, entry.2.StandsFor v ∧ entry' = (entry.1, .wrapped v)) entries entries'

theorem ofDatum_eq_ok_iff_mapM :
    ofDatum (.dictionary entries) = .ok env ↔ entries.mapM bindingOf = .ok env.bindings := by
  obtain ⟨bindings⟩ := env
  rw [ofDatum]
  cases entries.mapM bindingOf <;> simp [Bind.bind, Except.bind, pure, Except.pure]

/-- The environment of a dictionary has the variables that its entries set, in their order. -/
theorem ofDatum_eq_ok_iff :
    ofDatum (.dictionary entries) = .ok env ↔ List.Forall₂ Sets entries env.bindings := by
  rw [ofDatum_eq_ok_iff_mapM, mapM_eq_ok_iff]
  simp only [bindingOf_eq_ok_iff]

/-- A dictionary is refused for its first entry that sets no variable. -/
theorem ofDatum_eq_error_iff :
    ofDatum (.dictionary entries) = .error failure ↔
      ∃ before entry after, entries = before ++ entry :: after ∧ Accepted before ∧
        Refuses entry failure := by
  rw [ofDatum_eq_error_iff_mapM, mapM_eq_error_iff]
  simp only [← accepted_iff, bindingOf_eq_error_iff]

/-- An environment is converted to itself. -/
theorem ofDatum_toDatum (env : Environment) : ofDatum env.toDatum = .ok env := by
  rw [toDatum, ofDatum_eq_ok_iff, List.forall₂_map_left_iff, List.forall₂_same]
  exact fun binding _ => ⟨rfl, .wrapped binding.2, rfl⟩

/-- A dictionary is converted alike when some of its items have been converted before. -/
theorem Converted.ofDatum_eq (h : Converted entries entries') :
    ofDatum (.dictionary entries') = ofDatum (.dictionary entries) := by
  have hentries : entries'.mapM bindingOf = entries.mapM bindingOf := by
    induction h with
    | nil => rfl
    | @cons entry entry' _ _ hentry _ ih =>
      have hfirst : bindingOf entry' = bindingOf entry := by
        rcases hentry with rfl | ⟨v, hv, rfl⟩
        · rfl
        · obtain ⟨key, raw⟩ := entry
          cases key with
          | text name =>
            have hvalue : Value.ofDatum (.text name) raw = .ok v := Value.ofDatum_eq_ok_iff.2 hv
            rw [bindingOf, bindingOf, hvalue]
            rfl
          | _ => rfl
      rw [List.mapM_cons, List.mapM_cons, hfirst, ih]
  rw [ofDatum, ofDatum, hentries]

end Environment

/-! ## Evaluation -/

open Environment

/-- The variables of a caller are converted all or none. A dictionary becomes an environment exactly
if every key is a name and every item is supported, an integer as long as it is below the bound. The
environment has the variables that the entries set, in their order and each of the kind of its item;
otherwise the first entry that sets no variable is refused, for its key before its item, and it is
rejected as unsupported unless its key cannot be written. An environment is converted to itself, so
that it changes no outcome if some items have been converted before. What is refused is refused
alike for every expression under all limits. -/
theorem variables_all_or_none (entries : List (Datum × Datum)) :
    ((∃ env, ofDatum (.dictionary entries) = .ok env) ↔ Accepted entries) ∧
    (∀ n, (Datum.integer n).IsSupported ↔ n.natAbs < overflowBound) ∧
    (∀ env, ofDatum (.dictionary entries) = .ok env ↔ List.Forall₂ Sets entries env.bindings) ∧
    (∀ failure, ofDatum (.dictionary entries) = .error failure ↔
      ∃ before entry after, entries = before ++ entry :: after ∧ Accepted before ∧
        Refuses entry failure) ∧
    (∀ env, ofDatum (.dictionary entries) = .ok env → ofDatum env.toDatum = .ok env) ∧
    (∀ entries', Converted entries entries' →
      (∀ limits source, evaluate limits source (.dictionary entries') =
        evaluate limits source (.dictionary entries)) ∧
      ∀ rule : Rule, rule.run (.dictionary entries') = rule.run (.dictionary entries)) ∧
    ∀ failure, ofDatum (.dictionary entries) = .error failure → ∀ limits source,
      (evaluate limits source (.dictionary entries)).outcome = .error failure := by
  refine ⟨?_, fun n => Datum.isSupported_integer_iff, fun env => ofDatum_eq_ok_iff,
    fun failure => ofDatum_eq_error_iff, fun env _ => ofDatum_toDatum env, fun entries' h => ?_,
    fun failure h => evaluate_of_refused h⟩
  · rw [accepted_iff, ← exists_mapM_eq_ok_iff]
    constructor
    · rintro ⟨env, h⟩
      exact ⟨env.bindings, ofDatum_eq_ok_iff_mapM.1 h⟩
    · rintro ⟨bindings, h⟩
      exact ⟨⟨bindings⟩, ofDatum_eq_ok_iff_mapM.2 h⟩
  · refine ⟨fun limits source => ?_, fun rule => ?_⟩
    · rw [evaluate, evaluate, h.ofDatum_eq]
    · rw [Rule.run, Rule.run, h.ofDatum_eq]

/-- A truth value that has been converted before changes nothing, and a key that is no name is
refused before the items behind it, also for an expression that ends too early. -/
theorem truthAndKey_all_or_none :
    Converted [(.text "on", .boolean true), (.text "n", .float 2.5)]
        [(.text "on", .wrapped (.boolean true)), (.text "n", .float 2.5)] ∧
      evaluate Limits.default "on && n"
          (.dictionary [(.text "on", .wrapped (.boolean true)), (.text "n", .float 2.5)]) =
        evaluate Limits.default "on && n"
          (.dictionary [(.text "on", .boolean true), (.text "n", .float 2.5)]) ∧
      ofDatum (.dictionary [(.text "on", .boolean true)]) = .ok ⟨[("on", .boolean true)]⟩ ∧
      ofDatum (toDatum ⟨[("on", .boolean true)]⟩) = .ok ⟨[("on", .boolean true)]⟩ ∧
      ofDatum (.dictionary [(.text "on", .boolean true), (.integer 7, .null), (.text "x", .null)]) =
        reject (.unsupportedVariable (.integer 7) "key of type int") none ∧
      (evaluate Limits.default "on &&" (.dictionary
          [(.text "on", .boolean true), (.integer 7, .null), (.text "x", .null)])).outcome =
        reject (.unsupportedVariable (.integer 7) "key of type int") none := by
  obtain ⟨_, _, _, _, _, hconverted, _⟩ :=
    variables_all_or_none [(.text "on", .boolean true), (.text "n", .float 2.5)]
  have hchanged : Converted [(.text "on", .boolean true), (.text "n", .float 2.5)]
      [(.text "on", .wrapped (.boolean true)), (.text "n", .float 2.5)] :=
    .cons (.inr ⟨_, .boolean true, rfl⟩) (.cons (.inl rfl) .nil)
  obtain ⟨_, _, _, _, hagain, _, _⟩ := variables_all_or_none [(.text "on", .boolean true)]
  obtain ⟨_, _, _, _, _, _, hrefused⟩ := variables_all_or_none
    [(.text "on", .boolean true), (.integer 7, .null), (.text "x", .null)]
  exact ⟨hchanged, (hconverted _ hchanged).1 _ _, rfl, hagain _ rfl, rfl, hrefused _ rfl _ _⟩

/-- An integer of too many digits for a key is refused without a name, and an evaluation with it is
not rejected. -/
theorem unwrittenKey_unnamed :
    (¬∃ env, ofDatum (.dictionary [(.leastUnwritten, .integer 1)]) = .ok env) ∧
      (¬∃ key typeName, ofDatum (.dictionary [(.leastUnwritten, .integer 1)]) =
        reject (.unsupportedVariable key typeName) none) ∧
      ¬∃ e, (evaluate Limits.default "1" (.dictionary [(.leastUnwritten, .integer 1)])).outcome =
        .error (.rejected e) := by
  have henv := unreportable_iff.1 (unreportable_leastUnwritten (.integer 1) [])
  rw [evaluate_of_refused henv, henv]
  refine ⟨nofun, ?_, ?_⟩
  · rintro ⟨key, typeName, h⟩
    cases h
  · rintro ⟨e, h⟩
    cases h

end Criterion
