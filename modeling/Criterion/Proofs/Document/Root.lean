import Criterion.Document.Reader

/-!
# The root of a document

Whatever a document holds, it is a table itself: the reading begins with the empty one, and no line
puts anything in its place.
-/

namespace Criterion.Document

/-- A document is a table. -/
inductive IsTable : Document → Prop where
  | table (origin : Origin) (entries : Entries) : IsTable (.table origin entries)

/-- A change makes a table of each table that it allows. -/
def KeepsTable (f : Option Document → Option Document) : Prop :=
  ∀ document changed : Document, document.IsTable → f (some document) = some changed →
    changed.IsTable

variable {f : Option Document → Option Document} {document : Document} {state next : Reading}
  {text rest : List Char}

/-- A table has entries as a datum. -/
theorem IsTable.exists_entries (h : document.IsTable) :
    ∃ entries, document.toDatum = .dictionary entries := by
  cases h with
  | table origin entries => exact ⟨toEntries entries, by rw [toDatum]⟩

/-- The tables of dotted keys stay tables when they are closed. -/
theorem IsTable.settled (h : document.IsTable) : document.settled.IsTable := by
  cases h with
  | table origin entries => cases origin <;> exact .table _ _

/-- A change at the end of a path leaves the tables on the way. -/
theorem KeepsTable.changeAt (hf : KeepsTable f) (path : List String) :
    KeepsTable (changeAt f path) := by
  intro document changed hdocument h
  cases path with
  | nil => exact hf document changed hdocument h
  | cons name path =>
    cases hdocument with
    | table origin entries =>
      rw [Document.changeAt, Option.map_eq_some_iff] at h
      obtain ⟨entries', _, rfl⟩ := h
      exact .table origin entries'

private theorem keepsTable_declare : KeepsTable declare := by
  rintro _ changed ⟨origin, entries⟩ h
  cases origin <;> cases h <;> exact .table _ _

private theorem keepsTable_append : KeepsTable append := by
  rintro _ changed ⟨origin, entries⟩ h
  contradiction

/-- To put a datum into a table leaves the table. -/
theorem keepsTable_putWithin (d : Datum) (names : List String) :
    KeepsTable (putWithin d names) := by
  rintro _ changed ⟨origin, entries⟩ h
  rw [putWithin, Option.map_eq_some_iff] at h
  obtain ⟨entries', _, rfl⟩ := h
  exact .table origin entries'

/-! ## Reading -/

/-- What is required is there if all goes well. -/
theorem required_eq_ok_iff {α : Type} {found : Option α} {a : α} :
    required found = .ok a ↔ found = some a := by
  cases found <;> simp [required]

/-- A header leaves the root a table. -/
theorem Reading.isTable_of_header {closing : List Char} (hf : KeepsTable f)
    (hstate : state.document.IsTable) (h : state.header f closing text = .ok (next, rest)) :
    next.document.IsTable := by
  simp only [header, bind, Except.bind] at h
  split at h
  · contradiction
  · split at h
    · contradiction
    · rename_i changed hchanged
      split at h <;> cases h
      exact hf.changeAt _ _ _ hstate.settled (required_eq_ok_iff.1 hchanged)

/-- A key with a value leaves the root a table. -/
theorem Reading.isTable_of_assignment (hstate : state.document.IsTable)
    (h : state.assignment text = .ok (next, rest)) : next.document.IsTable := by
  simp only [assignment, bind, Except.bind] at h
  split at h
  · contradiction
  · split at h
    · contradiction
    · split at h
      · contradiction
      · split at h
        · contradiction
        · rename_i changed hchanged
          cases h
          exact (keepsTable_putWithin _ _).changeAt _ _ _ hstate (required_eq_ok_iff.1 hchanged)

/-- A line leaves the root a table. -/
theorem Reading.isTable_of_statement (hstate : state.document.IsTable)
    (h : state.statement text = .ok (next, rest)) : next.document.IsTable := by
  unfold statement at h
  split at h
  · exact isTable_of_header keepsTable_append hstate h
  · exact isTable_of_header keepsTable_declare hstate h
  · split at h
    · exact isTable_of_assignment hstate h
    · split at h <;> cases h
      exact hstate
  · cases h
    exact hstate

/-- Lines leave the root a table. -/
theorem Reading.isTable_of_lines {turns : Nat} (hstate : state.document.IsTable)
    (h : state.lines turns text = .ok next) : next.document.IsTable := by
  induction turns generalizing state text with
  | zero => contradiction
  | succ turns ih =>
    simp only [lines, bind, Except.bind] at h
    split at h
    · contradiction
    · rename_i line hline
      have hnext : line.1.document.IsTable := isTable_of_statement hstate hline
      split at h
      · contradiction
      · split at h
        · cases h
          exact hnext
        · exact ih hnext h
        · contradiction

/-- Every document that is read has entries. -/
theorem exists_entries_of_ofText {text : String} (h : ofText text = .ok document) :
    ∃ entries, document.toDatum = .dictionary entries := by
  simp only [ofText, bind, Except.bind] at h
  split at h
  · contradiction
  · rename_i state hlines
    cases h
    exact (Reading.isTable_of_lines (.table .declared []) hlines).exists_entries

end Criterion.Document
