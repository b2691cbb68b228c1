import Criterion.Binary64.Basic
import Criterion.Text

/-!
# Decimals and numerals

A decimal is a natural number scaled by a power of ten. The double nearest to it is found from the
exact quotient, except where the exponent alone decides: from `10 ^ 310` on the double is infinite,
and below half a unit it is zero. A numeral is a text that says a decimal, or a word for what none
can say.
-/

namespace Criterion

/-- The number `digits * 10 ^ exponent`. -/
structure Decimal where
  digits : Nat
  exponent : Int
  deriving DecidableEq, Repr

namespace Decimal

open Binary64

/-- The pattern of the double nearest to a decimal. -/
def pattern (d : Decimal) : Nat :=
  match d.exponent with
  | .ofNat e =>
    if d.digits = 0 then 0
    else if 310 ≤ e then infinitePattern
    else patternOfRatio (d.digits * Nat.pow 10 e) 1
  | .negSucc e =>
    if d.digits.log2 + 1076 ≤ 3 * (e + 1) then 0
    else patternOfRatio d.digits (Nat.pow 10 (e + 1))

/-- The double nearest to a decimal, with the given sign. -/
def toFloat (negative : Bool) (d : Decimal) : Float := ofPattern negative d.pattern

end Decimal

/-! ## Reading numerals

A numeral is an optional sign and then either one of the words `inf`, `infinity` and `nan`, in any
case, or digits with an optional fraction and an optional exponent. Single underscores may stand
between digits. What may surround a numeral depends on where it stands.
-/

/-- What a numeral says, before it is rounded. -/
inductive Numeral where
  | nan
  | infinite (negative : Bool)
  | finite (negative : Bool) (value : Decimal)
  deriving DecidableEq, Repr

namespace Numeral

/-- The double that a numeral stands for. -/
def toFloat : Numeral → Float
  | nan => Binary64.nan
  | infinite negative => Binary64.infinite negative
  | finite negative value => value.toFloat negative

/-- The longest run of digits at the front of a text that began with a digit, and the rest. A
single underscore between two digits belongs to the run. -/
def moreDigits (digit? : Char → Option Nat) : List Char → List Nat × List Char
  | [] => ([], [])
  | '_' :: c :: rest =>
    match digit? c with
    | some d => let (ds, rest) := moreDigits digit? rest; (d :: ds, rest)
    | none => ([], '_' :: c :: rest)
  | c :: rest =>
    match digit? c with
    | some d => let (ds, rest) := moreDigits digit? rest; (d :: ds, rest)
    | none => ([], c :: rest)

/-- The longest run of digits at the front of a text, and the rest. -/
def digits (digit? : Char → Option Nat) : List Char → List Nat × List Char
  | '_' :: rest => ([], '_' :: rest)
  | text => moreDigits digit? text

/-- The number that a run of digits writes. -/
def valueOf (ds : List Nat) : Nat := ds.foldl (fun n d => 10 * n + d) 0

/-- Drop a sign and say whether it was a minus. -/
def sign : List Char → Bool × List Char
  | '-' :: rest => (true, rest)
  | '+' :: rest => (false, rest)
  | text => (false, text)

/-- The fraction after a run of digits, and the rest. -/
def fraction (digit? : Char → Option Nat) : List Char → List Nat × List Char
  | '.' :: rest => digits digit? rest
  | text => ([], text)

/-- The exponent that ends a numeral. -/
def exponent? (digit? : Char → Option Nat) : List Char → Option Int
  | [] => some 0
  | c :: rest =>
    let (negative, rest) := sign rest
    match digits digit? rest with
    | (ds@(_ :: _), []) =>
      let e : Int := (valueOf ds : Nat)
      if c.toLower = 'e' then some (if negative then -e else e) else none
    | _ => none

/-- The decimal of an unsigned numeral. -/
def decimal? (digit? : Char → Option Nat) (text : List Char) : Option Decimal :=
  let (whole, rest) := digits digit? text
  let (part, rest) := fraction digit? rest
  if whole.isEmpty && part.isEmpty then none
  else (exponent? digit? rest).map fun e => ⟨valueOf (whole ++ part), e - part.length⟩

/-- Read a numeral whose digits are those of a given class. -/
def parse? (digit? : Char → Option Nat) (text : List Char) : Option Numeral :=
  let (negative, body) := sign text
  let word := String.ofList (body.map Char.toLower)
  if word = "nan" then some nan
  else if word = "inf" || word = "infinity" then some (infinite negative)
  else (decimal? digit? body).map (finite negative)

/-- The double that a numeral in digits of any script, with white space around it, stands for. -/
def readFloat? (text : List Char) : Option Float :=
  (parse? Text.decimalDigit? (Text.trim Text.isBlank text)).map toFloat

/-- Read a numeral in plain digits leniently. White space may stand around one without underscores;
from one with underscores they are taken out wherever they stand. -/
def parseLenient? (text : List Char) : Option Numeral :=
  if text.contains '_' then (Text.withoutUnderscores? text).bind (parse? Text.plainDigit?)
  else parse? Text.plainDigit? (Text.trim Text.isBlank text)

end Numeral

end Criterion
