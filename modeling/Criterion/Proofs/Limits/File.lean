import Criterion.Limits.File
import Criterion.Proofs.Limits.Settings

/-!
# How a limits file fails

A file is no document, or holds an integer that is too long to be read, or its section does not have
the form of entries, or the entries are not valid. No other failure comes of it.
-/

namespace Criterion

/-- A section, or the table in which it is sought, does not have the form of entries. -/
inductive Misuse.ConcernsSection : Misuse → Prop where
  | unhashable (typeName : String) : ConcernsSection (.unhashable typeName)
  | entryLength (index length : Nat) : ConcernsSection (.entryLength index length)
  | entryNotSequence (index : Nat) : ConcernsSection (.entryNotSequence index)
  | notIterable (typeName : String) : ConcernsSection (.notIterable typeName)
  | noSections (typeName : String) : ConcernsSection (.noSections typeName)

/-- The failures that come of a limits file. -/
inductive Failure.ConcernsFile : Failure → Prop where
  | malformed : ConcernsFile .malformedDocument
  | longInteger (digits : Nat) : ConcernsFile (.misuse (.longInteger (some digits)))
  | form {m : Misuse} (h : m.ConcernsSection) : ConcernsFile (.misuse m)
  | invalid (problems : List Problem) : ConcernsFile (.invalid problems)

/-- The failures of a limits file that are reported: it is no document, or its entries are not
valid. -/
inductive Failure.IsReported : Failure → Prop where
  | invalid (problems : List Problem) : IsReported (.invalid problems)
  | malformed : IsReported .malformedDocument

namespace Limits

variable {failure : Failure} {limits : Limits} {index : Nat} {item : Datum} {items : List Datum}
  {entries : List (Datum × Datum)}

private theorem concernsSection_of_entryOf (h : entryOf index item = .error failure) :
    ∃ m, failure = .misuse m ∧ m.ConcernsSection := by
  cases item with
  | text s | list parts | dictionary entries =>
    simp only [entryOf, bind, Except.bind] at h
    split at h
    · split at h <;> cases h
      exact ⟨_, rfl, .unhashable _⟩
    · cases h
      exact ⟨_, rfl, .entryLength _ _⟩
  | _ =>
    cases h
    exact ⟨_, rfl, .entryNotSequence _⟩

/-- Items that are no entries fail by the first that does not have the form of one. -/
theorem concernsSection_of_entriesOf (h : entriesOf index items = .error failure) :
    ∃ m, failure = .misuse m ∧ m.ConcernsSection := by
  induction items generalizing index with
  | nil => contradiction
  | cons item items ih =>
    rw [entriesOf] at h
    cases hentry : entryOf index item with
    | error failure' =>
      rw [hentry] at h
      cases h
      exact concernsSection_of_entryOf hentry
    | ok entry =>
      cases hentries : entriesOf (index + 1) items with
      | error failure' =>
        rw [hentry, hentries] at h
        cases h
        exact ih hentries
      | ok entries =>
        rw [hentry, hentries] at h
        contradiction

/-- What is no dictionary does not have the form of entries. -/
theorem concernsSection_of_dictionaryOf (h : dictionaryOf item = .error failure) :
    ∃ m, failure = .misuse m ∧ m.ConcernsSection := by
  have hitems {items : List Datum} (h : (entriesOf 0 items).map Datum.ofEntries = .error failure) :
      ∃ m, failure = .misuse m ∧ m.ConcernsSection := by
    cases hentries : entriesOf 0 items with
    | error failure' =>
      rw [hentries] at h
      cases h
      exact concernsSection_of_entriesOf hentries
    | ok entries =>
      rw [hentries] at h
      contradiction
  cases item with
  | dictionary entries => contradiction
  | list items => exact hitems h
  | text s => exact hitems h
  | _ =>
    cases h
    exact ⟨_, rfl, .notIterable _⟩

/-- A section that is not found, or not as a dictionary, does not have the form of entries. -/
theorem concernsSection_of_findSection (h : findSection entries = .error failure) :
    ∃ m, failure = .misuse m ∧ m.ConcernsSection := by
  unfold findSection at h
  split at h
  · exact concernsSection_of_dictionaryOf h
  · contradiction
  · unfold sectionOf at h
    split at h
    · exact concernsSection_of_dictionaryOf h
    · contradiction
  · cases h
    exact ⟨_, rfl, .noSections _⟩

/-- A document fails by the form of its section or by validation. -/
theorem form_or_invalid_of_ofDocument {document : Document}
    (h : ofDocument document = .error failure) :
    (∃ m, failure = .misuse m ∧ m.ConcernsSection) ∨ ∃ problems, failure = .invalid problems := by
  rw [ofDocument] at h
  split at h
  · rename_i entries _
    cases hsection : findSection entries with
    | error failure' =>
      rw [hsection] at h
      cases h
      exact .inl (concernsSection_of_findSection hsection)
    | ok settings =>
      rw [hsection] at h
      change (if settings.isTrue then ofSettings settings else .ok default) = _ at h
      split at h
      · exact .inr (invalid_of_ofSettings h)
      · contradiction
  · contradiction

/-- What comes of a file that sets no limits. -/
theorem concernsFile_of_ofFile {file : Option String} (h : ofFile file = .error failure) :
    failure.ConcernsFile := by
  unfold ofFile at h
  split at h
  · contradiction
  · split at h
    · obtain ⟨m, rfl, hm⟩ | ⟨problems, rfl⟩ := form_or_invalid_of_ofDocument h
      · exact .form hm
      · exact .invalid problems
    · cases h
      exact .malformed
    · cases h
      exact .longInteger _

end Limits

end Criterion
