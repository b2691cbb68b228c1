import Criterion.Token.Basic

/-!
# What the program shows

Reports pass through a screen, and tokens are shown in a table.
-/

namespace Criterion.CommandLine

/-! ## Text on the screen

A report passes through the markup of the screen: a backslash before an opening bracket only
escapes it and is not shown. Where the bracket opens a tag, the report has been escaped as a whole,
and everything is shown as it stands. Control characters that would move the cursor about are
dropped, and tabs are filled up with blanks to the next multiple of eight columns. The screen here
is so wide that no line is folded.
-/

/-- Whether the text behind an opening bracket makes the two a tag: it begins with a small letter
or one of three signs and reaches a closing bracket before the next opening one. -/
def opensTag : List Char → Bool
  | [] => false
  | c :: rest =>
    (c.isLower || ['#', '/', '@'].contains c)
      && rest.find? (fun c => c == '[' || c == ']') == some ']'

/-- Drop the backslash before each opening bracket that opens no tag. -/
def dropEscapes : List Char → List Char
  | [] => []
  | '\\' :: '[' :: rest =>
    if opensTag rest then '\\' :: '[' :: dropEscapes rest else '[' :: dropEscapes rest
  | c :: rest => c :: dropEscapes rest

/-- The characters that reports drop: bell, backspace, vertical tab, form feed and carriage
return. -/
def isDropped (c : Char) : Bool := [7, 8, 11, 12, 13].contains c.toNat

/-- Fill up tabs, from a given column on. A line feed goes back to column zero. -/
def expandTabs (column : Nat) : List Char → List Char
  | [] => []
  | '\n' :: rest => '\n' :: expandTabs 0 rest
  | '\t' :: rest =>
    let blanks := 8 - column % 8
    List.replicate blanks ' ' ++ expandTabs (column + blanks) rest
  | c :: rest => c :: expandTabs (column + 1) rest

/-- A text as a report shows it. -/
def onScreen (text : String) : String :=
  String.ofList (expandTabs 0 ((dropEscapes text.toList).filter fun c => !isDropped c))

end Criterion.CommandLine

namespace Criterion.CommandLine.Table

/-! ## The table of tokens

The table has a row for each token and is drawn with box characters. Each column is as wide as its
widest cell, and the positions are aligned to the right.
-/

/-- The cells of a row: position, kind and value. -/
structure Row where
  pos : String
  kind : String
  value : String
  deriving DecidableEq, Repr

/-- The heads of the columns. -/
def heads : Row := ⟨"Pos", "Kind", "Value"⟩

/-- The title of the table. -/
def title : String := "Tokens"

/-- The row of a token. -/
def rowOf (t : Token) : Row := ⟨toString t.pos, t.kind.name, t.value.literal⟩

/-- A text of a character repeated. -/
def repeated (c : Char) (n : Nat) : String := String.ofList (List.replicate n c)

/-- The widths of the columns. -/
structure Widths where
  pos : Nat
  kind : Nat
  value : Nat
  deriving DecidableEq, Repr

/-- The widths that a list of rows needs. -/
def widthsOf (rows : List Row) : Widths :=
  rows.foldl (fun w row =>
    ⟨max w.pos row.pos.length, max w.kind row.kind.length, max w.value row.value.length⟩)
    ⟨0, 0, 0⟩

/-- The width of the whole table: each cell has a blank on both sides, and four lines divide. -/
def Widths.total (w : Widths) : Nat := w.pos + w.kind + w.value + 10

/-- A text filled up with blanks on the right. -/
def padRight (width : Nat) (text : String) : String := text ++ repeated ' ' (width - text.length)

/-- A text filled up with blanks on the left. -/
def padLeft (width : Nat) (text : String) : String := repeated ' ' (width - text.length) ++ text

/-- A row between vertical lines. -/
def cells (w : Widths) (line : String) (row : Row) : String :=
  line ++ " " ++ padLeft w.pos row.pos ++ " " ++ line ++ " " ++ padRight w.kind row.kind ++ " "
    ++ line ++ " " ++ padRight w.value row.value ++ " " ++ line

/-- A horizontal border with its corners and crossings. -/
def border (w : Widths) (left line crossing right : String) : String :=
  let stretch (n : Nat) := String.join (List.replicate (n + 2) line)
  left ++ stretch w.pos ++ crossing ++ stretch w.kind ++ crossing ++ stretch w.value ++ right

/-- The lines of the table of some tokens. -/
def lines (tokens : List Token) : List String :=
  let rows := tokens.map rowOf
  let w := widthsOf (heads :: rows)
  [repeated ' ' ((w.total - title.length) / 2) ++ title,
    border w "┏" "━" "┳" "┓",
    cells w "┃" heads,
    border w "┡" "━" "╇" "┩"]
    ++ rows.map (cells w "│")
    ++ [border w "└" "─" "┴" "┘"]

end Criterion.CommandLine.Table
