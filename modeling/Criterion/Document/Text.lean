import Criterion.Text

/-!
# Strings in configuration documents

A string stands between double quotes, with escapes, or between single quotes, without. Between
three quotes of either sort it may run over several lines: a line feed directly behind the opening
quotes does not count, and up to two quotes directly before the closing ones belong to the string.
The functions below begin behind the opening quotes and return the string with the text behind it.
-/

namespace Criterion.Document

/-- The characters that may not stand in strings and comments, apart from line feeds. -/
def isControl (c : Char) : Bool :=
  (c.toNat < 0x20 && c != '\t' && c != '\n') || c.toNat = 0x7f

/-- The blanks within a line. -/
def isLineBlank (c : Char) : Bool := c == ' ' || c == '\t'

/-- Drop blanks within a line. -/
def skipBlanks (text : List Char) : List Char := text.dropWhile isLineBlank

/-- The value of a hexadecimal digit. -/
def hexDigit? (c : Char) : Option Nat :=
  if c.isDigit then some (c.toNat - 48)
  else if 'a' ≤ c && c ≤ 'f' then some (c.toNat - 87)
  else if 'A' ≤ c && c ≤ 'F' then some (c.toNat - 55)
  else none

/-- The character whose code point some hexadecimal digits spell. -/
def codePoint? (hex : List Char) : Option Char := do
  let digits ← hex.mapM hexDigit?
  let n := digits.foldl (fun n d => 16 * n + d) 0
  if n.isValidChar then some (Char.ofNat n) else none

/-- The character that a letter stands for behind a backslash. -/
def simpleEscape? : Char → Option Char
  | 'b' => some '\x08'
  | 't' => some '\t'
  | 'n' => some '\n'
  | 'f' => some '\x0c'
  | 'r' => some '\r'
  | '\\' => some '\\'
  | c => if c = Text.doubleQuote then some c else none

/-- A string read so far and the text behind it. -/
abbrev StringRead := Option (List Char × List Char)

/-- Put a character before a string that has been read. -/
def before (c : Char) (read : StringRead) : StringRead :=
  read.map fun (chars, rest) => (c :: chars, rest)

/-- Whether a text begins with a quote twice. -/
def beginsTwice (quote : Char) (text : List Char) : Bool :=
  text.head? == some quote && text.tail.head? == some quote

/-- The quotes of a string of several lines that belong to it although they follow its first three
closing ones; those three lie before the text. -/
def closingQuotes (quote : Char) (text : List Char) : List Char × List Char :=
  if beginsTwice quote text then ([quote, quote], text.drop 2)
  else if text.head? == some quote then ([quote], text.drop 1)
  else ([], text)

/-- A string between double quotes. A backslash at the end of a line skips the blanks and line feeds
behind it: `skipping` says that they are being skipped. -/
def basicString (several skipping : Bool) : List Char → StringRead
  | [] => none
  | '\\' :: 'u' :: a :: b :: c :: d :: rest => do
    let char ← codePoint? [a, b, c, d]
    before char (basicString several false rest)
  | '\\' :: 'U' :: a :: b :: c :: d :: e :: f :: g :: h :: rest => do
    let char ← codePoint? [a, b, c, d, e, f, g, h]
    before char (basicString several false rest)
  | '\\' :: c :: rest =>
    if several && (isLineBlank c || c == '\n') then
      if (skipBlanks (c :: rest)).head? == some '\n' then basicString several true rest else none
    else do
      let char ← simpleEscape? c
      before char (basicString several false rest)
  | c :: rest =>
    if skipping && (isLineBlank c || c == '\n') then basicString several true rest
    else if c = Text.doubleQuote then
      if !several then some ([], rest)
      else if beginsTwice Text.doubleQuote rest then
        some (closingQuotes Text.doubleQuote (rest.drop 2))
      else before c (basicString several false rest)
    else if c = '\\' || isControl c || (c == '\n' && !several) then none
    else before c (basicString several false rest)

/-- A string between single quotes. -/
def literalString (several : Bool) : List Char → StringRead
  | [] => none
  | c :: rest =>
    if c = Text.singleQuote then
      if !several then some ([], rest)
      else if beginsTwice Text.singleQuote rest then
        some (closingQuotes Text.singleQuote (rest.drop 2))
      else before c (literalString several rest)
    else if isControl c || (c == '\n' && !several) then none
    else before c (literalString several rest)

/-- Drop a line feed at the front of a text. -/
def skipLineFeed : List Char → List Char
  | '\n' :: rest => rest
  | text => text

/-- A string with its quotes. Strings of several lines are not allowed for keys. -/
def string? (several : Bool) : List Char → Option (String × List Char)
  | [] => none
  | c :: rest =>
    let threefold := several && beginsTwice c rest
    let body := if threefold then skipLineFeed (rest.drop 2) else rest
    let read :=
      if c = Text.doubleQuote then basicString threefold false body
      else if c = Text.singleQuote then literalString threefold body
      else none
    read.map fun (chars, rest) => (String.ofList chars, rest)

end Criterion.Document
