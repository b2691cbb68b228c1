import Criterion.Failure.Basic

/-!
# Data as numbers

A datum may stand for an integer, as that of a setting does, or convert to a double, as that of a
token does. Both are also read off texts, each by rules of its own.
-/

namespace Criterion.Datum

/-! ## The integer of a datum

A datum stands for an integer if it is one, if it is a truth value, if it is a double without a
fraction within 64 bits, or if it is a text that spells an integer. Spelling is generous: there may
be white space around the integer, a sign, zeros and underscores before its first digit, single
underscores behind it, and a fraction of zeros.
-/

/-- The integers of 64 bits lie between the negative of this number and the number itself. -/
def wordBound : Int := (Nat.pow 2 63 : Nat)

/-- The integer that a double is. -/
def integerOfFloat (x : Float) : Except Complaint Int :=
  match Binary64.view x with
  | .finite .. =>
    match Binary64.toInt? x with
    | some n => if -wordBound < n && n < wordBound then .ok n else .error .intSize
    | none => .error .intFromFloat
  | _ => .error .finiteNumber

/-- What counts of an integer's text behind a zero: zeros and underscores are passed over up to the
first other digit or a minus sign. The zero before a point stays, and so does the last character of
a text of nothing but zeros and underscores. -/
def behindZero (last : Char) : List Char → Option (List Char)
  | [] => some [last]
  | c :: rest =>
    if c = '0' || c = '_' then behindZero c rest
    else if c = '.' then some (last :: c :: rest)
    else if c.isDigit || c = '-' then some (c :: rest)
    else none

/-- What counts of the text of an unsigned integer. It has to begin with a digit. -/
def significant? : List Char → Option (List Char)
  | [] => none
  | c :: rest =>
    if c = '0' then behindZero c rest
    else if c.isDigit then some (c :: rest)
    else none

/-- A text without a fraction, if that consists of zeros. -/
def withoutZeroFraction (text : List Char) : List Char :=
  match text.dropWhile (· != '.') with
  | _ :: zero :: zeros =>
    if (zero :: zeros).all (· == '0') then text.takeWhile (· != '.') else text
  | _ => text

/-- The greatest number of characters of an integer that is read, its sign among them. -/
def longestInteger : Nat := 4300

/-- The integer that a text of an optional minus sign and digits spells. No zero may precede
another digit. -/
def plainInteger (text : List Char) : Except Complaint Int :=
  let (negative, body) := Numeral.sign text
  let digits := body.takeWhile Char.isDigit
  let rest := body.dropWhile Char.isDigit
  if text.head? == some '+' || digits.isEmpty || (digits.head? == some '0' && digits.length != 1)
  then .error .intParsing
  else if longestInteger < text.length - rest.length then .error .intSize
  else if !rest.isEmpty then .error .intParsing
  else
    let n : Int := (Numeral.valueOf (digits.filterMap Text.plainDigit?) : Nat)
    .ok (if negative then -n else n)

/-- The integer that a text spells. -/
def integerOfText (text : List Char) : Except Complaint Int :=
  let (negative, body) := Numeral.sign (Text.trim Text.isBlank text)
  match significant? body with
  | none => .error .intParsing
  | some counted =>
    let whole := withoutZeroFraction counted
    let digits := (Text.withoutUnderscores? whole).getD whole
    plainInteger (if negative then '-' :: digits else digits)

/-- The integer that a datum stands for. -/
def toInteger : Datum → Except Complaint Int
  | boolean b => .ok (truthInteger b)
  | integer n => .ok n
  | float x => integerOfFloat x
  | text s => integerOfText s.toList
  | _ => .error .intType

/-! ## The double of a datum

Any datum that stands for a number converts to the nearest double; a text does if it is a numeral.
-/

/-- The double that was found, or else a misuse. -/
def foundOr (m : Misuse) : Option Float → Except Failure Float
  | some x => .ok x
  | none => .error (.misuse m)

/-- The double that a datum converts to. -/
def toFloat : Datum → Except Failure Float
  | boolean b => .ok (Value.boolean b).toNumber
  | integer n => foundOr .integerTooLarge (Binary64.ofInt? n)
  | float x => .ok x
  | text s => foundOr (.unreadableNumber s) (Numeral.readFloat? s.toList)
  | d => .error (.misuse (.notNumeric d.typeName))

end Criterion.Datum
