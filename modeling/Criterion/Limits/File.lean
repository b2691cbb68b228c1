import Criterion.Document.Reader
import Criterion.Limits.Basic

/-!
# Limits from a document

The limits stand in the table `safecond`, or else in the table `safecond` of the table `tool`. A
section that is not a table is taken for a list of entries where it can be.
-/

namespace Criterion.Limits

/-- The name of the section. -/
def sectionName : String := "safecond"

/-- The name of the table in which the section is sought next. -/
def toolName : String := "tool"

/-- The two parts of an item in place of an entry. -/
def entryOf (index : Nat) (item : Datum) : Except Failure (Datum × Datum) := do
  let parts ← match item with
    | .text s => Except.ok (s.toList.map fun c => Datum.text c.toString)
    | .list parts => .ok parts
    | .dictionary entries => .ok (entries.map (·.1))
    | _ => .error (.misuse (.entryNotSequence index))
  match parts with
  | [key, item] =>
    if key.isHashable then .ok (key, item) else .error (.misuse (.unhashable key.typeName))
  | parts => .error (.misuse (.entryLength index parts.length))

/-- The entries of a section. -/
def entriesOf (index : Nat) : List Datum → Except Failure (List (Datum × Datum))
  | [] => .ok []
  | item :: items => do
    let entry ← entryOf index item
    return entry :: (← entriesOf (index + 1) items)

/-- A section as a dictionary. -/
def dictionaryOf : Datum → Except Failure Datum
  | .dictionary entries => .ok (.dictionary entries)
  | .list items => (entriesOf 0 items).map Datum.ofEntries
  | .text s => (entriesOf 0 (s.toList.map fun c => .text c.toString)).map Datum.ofEntries
  | d => .error (.misuse (.notIterable d.typeName))

/-- The section of a table, empty where there is none. -/
def sectionOf (entries : List (Datum × Datum)) : Except Failure Datum :=
  match Datum.lookup? entries sectionName with
  | some d => dictionaryOf d
  | none => .ok (.dictionary [])

/-- The section for limits in the entries of a document. -/
def findSection (entries : List (Datum × Datum)) : Except Failure Datum :=
  match Datum.lookup? entries sectionName, Datum.lookup? entries toolName with
  | some d, _ => dictionaryOf d
  | none, none => .ok (.dictionary [])
  | none, some (.dictionary tools) => sectionOf tools
  | none, some d => .error (.misuse (.noSections d.typeName))

/-- The limits that a document sets. An empty section sets none. -/
def ofDocument (document : Document) : Except Failure Limits :=
  match document.toDatum with
  | .dictionary entries => do
    let settings ← findSection entries
    if settings.isTrue then ofSettings settings else .ok default
  | _ => .ok default

/-- The limits that a file sets, given its text; those of a file that does not exist are the
default ones. -/
def ofFile : Option String → Except Failure Limits
  | none => .ok default
  | some text =>
    match Document.ofText text with
    | .ok document => ofDocument document
    | .error .malformed => .error .malformedDocument
    | .error (.integerTooLong digits) => .error (.misuse (.longInteger (some digits)))

end Criterion.Limits
