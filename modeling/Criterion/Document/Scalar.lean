import Criterion.Datum.Basic
import Criterion.Document.Text

/-!
# Numbers, dates and words in configuration documents

Integers may be written in four bases, doubles with a fraction, an exponent or both; single
underscores may stand between digits. Dates and times have to exist, but only their kind is kept,
since no setting takes one. Decimal integers that are very long are refused in a way of their own.
-/

namespace Criterion.Document

/-- Why a text is no document. -/
inductive Fault where
  | malformed
  /-- A decimal integer has too many digits. -/
  | integerTooLong (digits : Nat)
  deriving DecidableEq, Repr

/-- A part that must be there. -/
def required {α : Type} : Option α → Except Fault α
  | some a => .ok a
  | none => .error .malformed

/-- The value of a digit in a base up to ten. -/
def digitBelow? (base : Nat) (c : Char) : Option Nat :=
  (Text.plainDigit? c).filter (· < base)

/-- The number that digits spell in a base. -/
def valueIn (base : Nat) (digits : List Nat) : Nat := digits.foldl (fun n d => base * n + d) 0

/-- A run of digits that is not empty. -/
def run? (digit? : Char → Option Nat) (text : List Char) : Option (List Nat × List Char) :=
  match Numeral.digits digit? text with
  | ([], _) => none
  | found => some found

/-- The whole part of a number: a zero, or digits that do not begin with one. -/
def wholeDigits? : List Char → Option (List Nat × List Char)
  | '0' :: rest => some ([0], rest)
  | text => run? Text.plainDigit? text

/-- The fraction of a number, if there is one. -/
def fractionDigits (text : List Char) : List Nat × List Char :=
  match Numeral.fraction Text.plainDigit? text with
  | ([], _) => ([], text)
  | found => found

/-- The exponent of a number, if there is one. -/
def exponentPart (text : List Char) : Option Int × List Char :=
  match text with
  | c :: rest =>
    let (negative, body) := Numeral.sign rest
    let (ds, after) := Numeral.digits Text.plainDigit? body
    let e : Int := (Numeral.valueOf ds : Nat)
    if c.toLower = 'e' && !ds.isEmpty then (some (if negative then -e else e), after)
    else (none, text)
  | [] => (none, text)

/-- An integer or a double in decimal digits. -/
def decimalNumber? (text : List Char) : Option (Except Fault Datum × List Char) := do
  let (negative, body) := Numeral.sign text
  let (whole, rest) ← wholeDigits? body
  let (part, rest) := fractionDigits rest
  let (power?, rest) := exponentPart rest
  let digits := Numeral.valueOf (whole ++ part)
  if part.isEmpty && power?.isNone then
    if Datum.longestDecimal < whole.length then some (.error (.integerTooLong whole.length), rest)
    else some (.ok (.integer (if negative then -(digits : Int) else digits)), rest)
  else
    let value : Decimal := ⟨digits, power?.getD 0 - part.length⟩
    some (.ok (.float (value.toFloat negative)), rest)

/-- An integer in another base than ten, behind its mark. -/
def basedInteger? (digit? : Char → Option Nat) (base : Nat) (text : List Char) :
    Option (Except Fault Datum × List Char) :=
  (run? digit? text).map fun (ds, rest) => (.ok (.integer (valueIn base ds : Nat)), rest)

/-- A number. -/
def number? (text : List Char) : Option (Except Fault Datum × List Char) :=
  let based := match text with
    | '0' :: 'x' :: rest => basedInteger? hexDigit? 16 rest
    | '0' :: 'o' :: rest => basedInteger? (digitBelow? 8) 8 rest
    | '0' :: 'b' :: rest => basedInteger? (digitBelow? 2) 2 rest
    | _ => none
  based <|> decimalNumber? text

/-- A number of exactly so many digits. -/
def fixedDigits? : (count : Nat) → (value : Nat) → List Char → Option (Nat × List Char)
  | 0, value, text => some (value, text)
  | _ + 1, _, [] => none
  | count + 1, value, c :: rest => do
    let d ← Text.plainDigit? c
    fixedDigits? count (10 * value + d) rest

/-- A number of two digits between two bounds. -/
def pair? (least greatest : Nat) (text : List Char) : Option (Nat × List Char) := do
  let (n, rest) ← fixedDigits? 2 0 text
  if least ≤ n && n ≤ greatest then some (n, rest) else none

/-- Drop a character that must be at the front. -/
def after? (c : Char) : List Char → Option (List Char)
  | [] => none
  | first :: rest => if first = c then some rest else none

/-- A day of the calendar, which need not exist. -/
structure Day where
  year : Nat
  month : Nat
  day : Nat
  deriving DecidableEq, Repr

/-- Whether a year has a leap day. -/
def isLeapYear (year : Nat) : Bool :=
  year % 4 = 0 && (year % 100 != 0 || year % 400 = 0)

/-- The days of a month. -/
def daysIn (year month : Nat) : Nat :=
  if month = 2 then (if isLeapYear year then 29 else 28)
  else if [4, 6, 9, 11].contains month then 30
  else 31

/-- Whether a day exists. -/
def Day.doesExist (d : Day) : Bool := 1 ≤ d.year && d.day ≤ daysIn d.year d.month

/-- The text behind a day. -/
def day? (text : List Char) : Option (Day × List Char) := do
  let (year, rest) ← fixedDigits? 4 0 text
  let (month, rest) ← pair? 1 12 (← after? '-' rest)
  let (day, rest) ← pair? 1 31 (← after? '-' rest)
  some (⟨year, month, day⟩, rest)

/-- The text behind a fraction of a second, if there is one. -/
def behindFraction : List Char → List Char
  | '.' :: c :: rest => if c.isDigit then rest.dropWhile Char.isDigit else '.' :: c :: rest
  | text => text

/-- The text behind a time of day. -/
def behindTime? (text : List Char) : Option (List Char) := do
  let (_, rest) ← pair? 0 23 text
  let (_, rest) ← pair? 0 59 (← after? ':' rest)
  let (_, rest) ← pair? 0 59 (← after? ':' rest)
  some (behindFraction rest)

/-- The text behind an offset in hours and minutes. -/
def behindHours? (text : List Char) : Option (List Char) := do
  let (_, rest) ← pair? 0 23 text
  let (_, rest) ← pair? 0 59 (← after? ':' rest)
  some rest

/-- The text behind an offset from universal time, if there is one. -/
def behindOffset : List Char → List Char
  | [] => []
  | c :: rest =>
    if c = 'Z' || c = 'z' then rest
    else if c = '+' || c = '-' then (behindHours? rest).getD (c :: rest)
    else c :: rest

/-- The text behind a time that follows a day. -/
def behindDayTime? : List Char → Option (List Char)
  | [] => none
  | c :: rest => if ['T', 't', ' '].contains c then behindTime? rest else none

/-- A day, with a time or without, or a time. -/
def moment? (text : List Char) : Option (Except Fault Datum × List Char) :=
  match day? text with
  | some (day, rest) =>
    let (kind, rest) := match behindDayTime? rest with
      | some rest => ("datetime.datetime", behindOffset rest)
      | none => ("datetime.date", rest)
    some (if day.doesExist then .ok (.foreign kind) else .error .malformed, rest)
  | none => (behindTime? text).map fun rest => (.ok (.foreign "datetime.time"), rest)

/-- The values that are written as words, infinities and what is no number among them. -/
def wordValues : List (String × Datum) :=
  [("true", .boolean true), ("false", .boolean false),
    ("inf", .float (Binary64.infinite false)), ("+inf", .float (Binary64.infinite false)),
    ("-inf", .float (Binary64.infinite true)), ("nan", .float Binary64.nan),
    ("+nan", .float Binary64.nan), ("-nan", .float Binary64.nan)]

/-- A value written as a word. -/
def word? (text : List Char) : Option (Except Fault Datum × List Char) :=
  wordValues.findSome? fun (spelling, d) =>
    (spelling.toList.isPrefixOf? text).map fun rest => (.ok d, rest)

/-- A value that holds no others. -/
def scalar (text : List Char) : Except Fault (Datum × List Char) :=
  let quoted := (string? true text).map fun (s, rest) => (Except.ok (Datum.text s), rest)
  match quoted <|> moment? text <|> number? text <|> word? text with
  | some (.ok d, rest) => .ok (d, rest)
  | some (.error fault, _) => .error fault
  | none => .error .malformed

end Criterion.Document
