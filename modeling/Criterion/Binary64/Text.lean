import Criterion.Decimal

/-!
# Doubles as texts

The text of a double is a decimal that reads back as it. The shortest such decimal is looked for,
and a layout fixes whether it is written with all its places or with a power of ten.
-/

namespace Criterion.Decimal

/-! ## The shortest decimal that reads back

Of the decimals that round to a given double, `shortest` takes one with the fewest digits. On the
grid of decimals with a given number of digits only the two neighbours of the double's value need
a trial: if any point of the grid reads back, one of them does. Where both do, the nearer one is
taken, and of two equally near ones the even.
-/

open Binary64

/-- The exponent of the first decimal digit of a positive number of units: no double is less than
`10 ^ (-324)`, so the digits before the point of its multiple by `10 ^ 324` tell. -/
def leadingExponent (units : Nat) : Int :=
  (Nat.toDigits 10 (units * Nat.pow 10 324 / unitsPerOne)).length - 325

/-- Numerator and denominator of a number of units counted in steps of `10 ^ exponent`. -/
def inSteps (units : Nat) : (exponent : Int) → Nat × Nat
  | .ofNat e => (units, unitsPerOne * Nat.pow 10 e)
  | .negSucc e => (units * Nat.pow 10 (e + 1), unitsPerOne)

/-- The neighbour from above on the grid with `more + 1` digits. Where it has one digit too many
it is a power of ten and written with one digit. -/
def above (quotient more : Nat) (exponent : Int) : Decimal :=
  if quotient + 1 = Nat.pow 10 (more + 1) then ⟨1, exponent + (more + 1)⟩
  else ⟨quotient + 1, exponent⟩

/-- Of the two neighbours of a quotient on the grid with `more + 1` digits, the one that reads back
as a pattern, if any does. -/
def neighbour? (target more : Nat) (exponent : Int) (p q : Nat) : Option Decimal :=
  let lower : Decimal := ⟨p / q, exponent⟩
  let upper := above (p / q) more exponent
  if lower.pattern = target then
    if upper.pattern = target && roundDiv p q != p / q then some upper else some lower
  else if upper.pattern = target then some upper
  else none

/-- The decimal with `more + 1` digits that reads back as a pattern, if there is one. -/
def ofLength? (target more : Nat) : Option Decimal :=
  let units := unitsOfPattern target
  let exponent := leadingExponent units - more
  let steps := inSteps units exponent
  neighbour? target more exponent steps.1 steps.2

/-- All digits of a number of units. -/
def exact (units : Nat) : Decimal := ⟨units * Nat.pow 5 1074, -1074⟩

/-- The shortest decimal that reads back as a finite pattern. Seventeen digits always suffice. -/
def shortest (target : Nat) : Decimal :=
  if target = 0 then ⟨0, 0⟩
  else
    match (List.range 17).findSome? (ofLength? target) with
    | some d => d
    | none => exact (unitsOfPattern target)

/-! ## Writing decimals

A layout fixes which decimals are written with all their places and which with a power of ten.
-/

/-- The choices left open by the digits of a decimal. -/
structure Layout where
  /-- The least exponent of a first digit that is written positionally. -/
  lowest : Int
  /-- The greatest such exponent. -/
  highest : Int
  /-- What follows a positional numeral that has no fraction. -/
  wholeSuffix : List Char
  /-- The least number of digits of a written exponent. -/
  exponentWidth : Nat

/-- Numbers from `0.0001` up to sixteen places before the point are positional and always show a
point; other exponents have a sign and two digits or more. -/
def Layout.standard : Layout := ⟨-4, 15, ['.', '0'], 2⟩

/-- A natural number in decimal digits. -/
def digitChars (n : Nat) : List Char := Nat.toDigits 10 n

/-- A decimal with all its places. -/
def positional (layout : Layout) (d : Decimal) : List Char :=
  match d.exponent with
  | .ofNat e => digitChars d.digits ++ List.replicate e '0' ++ layout.wholeSuffix
  | .negSucc e =>
    let digits := digitChars d.digits
    let padded := List.replicate (e + 2 - digits.length) '0' ++ digits
    let whole := padded.length - (e + 1)
    padded.take whole ++ '.' :: padded.drop whole

/-- A power of ten, with the sign of its exponent. -/
def powerOfTen (layout : Layout) (exponent : Int) : List Char :=
  let digits := digitChars exponent.natAbs
  'e' :: (if exponent < 0 then '-' else '+')
    :: List.replicate (layout.exponentWidth - digits.length) '0' ++ digits

/-- A decimal with one digit before the point and a power of ten. -/
def scientific (layout : Layout) (d : Decimal) (lead : Int) : List Char :=
  match digitChars d.digits with
  | [] => powerOfTen layout lead
  | [first] => first :: powerOfTen layout lead
  | first :: rest => first :: '.' :: rest ++ powerOfTen layout lead

/-- The numeral of a decimal. -/
def write (layout : Layout) (d : Decimal) : List Char :=
  let lead := d.exponent + (digitChars d.digits).length - 1
  if layout.lowest ≤ lead && lead ≤ layout.highest then positional layout d
  else scientific layout d lead

end Criterion.Decimal

namespace Criterion.Binary64

/-! ## The two texts of a double

`literalText` always shows that a number is a double (`1.0`, `-0.0`, `inf`); `displayText` writes
whole numbers below `10 ^ 16` without a point and does not tell the zeros apart. Both take the
fewest digits that read back as the same double.
-/

/-- A minus sign where one is due. -/
def signText (negative : Bool) : String := if negative then "-" else ""

/-- A double as a numeral that reads back as itself. -/
def literalText (x : Float) : String :=
  match view x with
  | .nan => "nan"
  | .infinite negative => signText negative ++ "inf"
  | .finite negative _ =>
    signText negative ++ String.ofList (Decimal.write .standard (Decimal.shortest (patternOf x)))

/-- A double as the result of an expression is shown. -/
def displayText (x : Float) : String :=
  match view x with
  | .nan => "NaN"
  | .infinite negative => signText negative ++ "Infinity"
  | .finite negative units =>
    if units % unitsPerOne = 0 && units / unitsPerOne < Nat.pow 10 16 then
      signText (negative && units != 0) ++ String.ofList (Decimal.digitChars (units / unitsPerOne))
    else literalText x

end Criterion.Binary64
