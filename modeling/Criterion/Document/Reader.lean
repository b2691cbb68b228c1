import Criterion.Document.Basic
import Criterion.Document.Scalar

/-!
# Reading configuration documents

A document is a list of lines. A line is empty, a header in brackets that opens a table, a header
in double brackets that appends a table to a series, or a key with a value; a comment may end it.
Keys are bare or quoted, and dots join several into one. Values are scalars, arrays, which may run
over several lines, and tables in braces, which are closed at once.
-/

namespace Criterion.Document

/-- The characters of bare keys. -/
def isBareKeyChar (c : Char) : Bool := c.isAlphanum || c == '_' || c == '-'

/-- A name in a key, bare or quoted. -/
def name? (text : List Char) : Option (String × List Char) :=
  match string? false text with
  | some found => some found
  | none =>
    let bare := text.takeWhile isBareKeyChar
    if bare.isEmpty then none else some (String.ofList bare, text.dropWhile isBareKeyChar)

/-- The names of a key that dots join. Each takes a character, so there are no more than that. -/
def names? : (turns : Nat) → List Char → Option (List String × List Char)
  | 0, _ => none
  | turns + 1, text => do
    let (name, rest) ← name? text
    match skipBlanks rest with
    | '.' :: rest =>
      let (names, rest) ← names? turns (skipBlanks rest)
      some (name :: names, rest)
    | rest => some ([name], rest)

/-- A key. -/
def key (text : List Char) : Except Fault (List String × List Char) :=
  required (names? (text.length + 1) text)

/-- Drop a comment up to the end of its line. -/
def skipComment? : List Char → Option (List Char)
  | '#' :: rest =>
    let comment := rest.takeWhile (· != '\n')
    if comment.any isControl then none else some (rest.dropWhile (· != '\n'))
  | text => some text

/-- Drop the blanks, line feeds and comments between the items of an array. -/
def skipSpace? (inComment : Bool) : List Char → Option (List Char)
  | [] => some []
  | c :: rest =>
    if c = '\n' then skipSpace? false rest
    else if inComment then if isControl c then none else skipSpace? true rest
    else if isLineBlank c then skipSpace? false rest
    else if c = '#' then skipSpace? true rest
    else some (c :: rest)

mutual

/-- A value. Every second step takes a character, so there are no more than twice as many steps. -/
def value : (steps : Nat) → List Char → Except Fault (Datum × List Char)
  | 0, _ => .error .malformed
  | steps + 1, text =>
    match text with
    | '[' :: rest => do
      let (ds, rest) ← items steps (← required (skipSpace? false rest))
      return (.list ds, rest)
    | '\x7b' :: rest =>
      match skipBlanks rest with
      | '\x7d' :: rest => .ok (.dictionary [], rest)
      | rest => fields steps [] rest
    | _ => scalar text

/-- The items of an array up to its closing bracket. A comma may follow the last one. -/
def items : (steps : Nat) → List Char → Except Fault (List Datum × List Char)
  | 0, _ => .error .malformed
  | steps + 1, text =>
    match text with
    | ']' :: rest => .ok ([], rest)
    | _ => do
      let (d, rest) ← value steps text
      match ← required (skipSpace? false rest) with
      | ',' :: rest =>
        let (ds, rest) ← items steps (← required (skipSpace? false rest))
        return (d :: ds, rest)
      | ']' :: rest => return ([d], rest)
      | _ => .error .malformed

/-- The entries of a table in braces up to its closing brace. -/
def fields : (steps : Nat) → Entries → List Char → Except Fault (Datum × List Char)
  | 0, _, _ => .error .malformed
  | steps + 1, entries, text => do
    let (names, rest) ← key text
    let (d, rest) ← value steps (skipBlanks (← required (after? '=' rest)))
    let entries ← required (putEntry d names entries)
    match skipBlanks rest with
    | ',' :: rest => fields steps entries (skipBlanks rest)
    | '\x7d' :: rest => return (.dictionary (toEntries entries), rest)
    | _ => .error .malformed

end

/-- A document read so far, with the path of the table that is open. -/
structure Reading where
  document : Document
  path : List String

/-- The reading at the start of a document. -/
def Reading.start : Reading := ⟨table .declared [], []⟩

/-- Read a header up to its closing brackets and open what it names. -/
def Reading.header (state : Reading) (opened : Option Document → Option Document)
    (closing : List Char) (text : List Char) : Except Fault (Reading × List Char) := do
  let (path, rest) ← key (skipBlanks text)
  let document ← required (changeAt opened path (some state.document.settled))
  let rest ← required (closing.isPrefixOf? rest)
  return (⟨document, path⟩, rest)

/-- Read a key and its value. -/
def Reading.assignment (state : Reading) (text : List Char) :
    Except Fault (Reading × List Char) := do
  let (names, rest) ← key text
  let body := skipBlanks (← required (after? '=' rest))
  let (d, rest) ← value (2 * body.length + 2) body
  let document ← required (changeAt (putWithin d names) state.path (some state.document))
  return (⟨document, state.path⟩, rest)

/-- Read what a line says. -/
def Reading.statement (state : Reading) (text : List Char) : Except Fault (Reading × List Char) :=
  match text with
  | '[' :: '[' :: rest => state.header append [']', ']'] rest
  | '[' :: rest => state.header declare [']'] rest
  | c :: _ =>
    if isBareKeyChar c || c == Text.doubleQuote || c == Text.singleQuote then state.assignment text
    else if c = '#' || c = '\n' then .ok (state, text)
    else .error .malformed
  | [] => .ok (state, text)

/-- Read lines up to the end of a text. Each but the last takes a line feed, so there are no more
than characters and one. -/
def Reading.lines : (turns : Nat) → Reading → List Char → Except Fault Reading
  | 0, _, _ => .error .malformed
  | turns + 1, state, text => do
    let (state, rest) ← state.statement (skipBlanks text)
    match ← required (skipComment? (skipBlanks rest)) with
    | [] => .ok state
    | '\n' :: rest => lines turns state rest
    | _ => .error .malformed

/-- Replace each carriage return with a line feed behind it by the line feed alone. -/
def normalizeLines : List Char → List Char
  | '\r' :: '\n' :: rest => '\n' :: normalizeLines rest
  | c :: rest => c :: normalizeLines rest
  | [] => []

/-- Read a document. -/
def ofText (text : String) : Except Fault Document := do
  let chars := normalizeLines text.toList
  let state ← Reading.start.lines (chars.length + 1) chars
  return state.document

end Criterion.Document
