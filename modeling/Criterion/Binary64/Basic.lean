/-!
# Doubles as whole numbers of units

Every finite double is a whole multiple of the least positive one, `2 ^ (-1074)`. The view below
reads a double as a sign and that multiple, its *units*, so that comparing, rounding and taking
remainders are questions about natural numbers. The low 63 bits of a double, its *pattern*, grow
with its magnitude: patterns below `infinitePattern` are the finite magnitudes in order.
-/

namespace Criterion.Binary64

/-- The units in the number one. -/
def unitsPerOne : Nat := Nat.pow 2 1074

/-- The patterns that share one exponent, which is also the least normal pattern. -/
def binade : Nat := Nat.pow 2 52

/-- The bit that holds the sign; the pattern lies below it. -/
def signBit : Nat := Nat.pow 2 63

/-- The pattern of the two infinities; larger patterns belong to no number. -/
def infinitePattern : Nat := 2047 * binade

/-- What a double stands for. Both zeros are finite, told apart by their sign. -/
inductive View where
  | nan
  | infinite (negative : Bool)
  | finite (negative : Bool) (units : Nat)
  deriving DecidableEq, Repr

/-- The units of a finite pattern: below the first normal pattern they are the pattern itself,
and each further binade doubles the step. -/
def unitsOfPattern (pattern : Nat) : Nat :=
  if pattern < binade then pattern
  else (binade + pattern % binade) * Nat.pow 2 (pattern / binade - 1)

/-- The low 63 bits of a double. -/
def patternOf (x : Float) : Nat := x.toBits.toNat % signBit

/-- Whether the sign bit of a double is set. -/
def isNegative (x : Float) : Bool := signBit ≤ x.toBits.toNat

/-- Read a double exactly. -/
def view (x : Float) : View :=
  if patternOf x < infinitePattern then .finite (isNegative x) (unitsOfPattern (patternOf x))
  else if patternOf x = infinitePattern then .infinite (isNegative x)
  else .nan

/-- The double with a given sign and pattern. -/
def ofPattern (negative : Bool) (pattern : Nat) : Float :=
  Float.ofBits (UInt64.ofNat (if negative then signBit + pattern else pattern))

/-- The double that is no number. -/
def nan : Float := ofPattern false (infinitePattern + binade / 2)

/-- The infinity of a given sign. -/
def infinite (negative : Bool) : Float := ofPattern negative infinitePattern

/-- The zero of a given sign. -/
def zero (negative : Bool) : Float := ofPattern negative 0

/-- The double one. -/
def one : Float := ofPattern false (1023 * binade)

/-- Whether a double is no number. -/
def isNan (x : Float) : Bool := view x == .nan

/-- The bits of a double, with one spelling for all that are no number. -/
def bits? (x : Float) : Option Nat :=
  if isNan x then none else some x.toBits.toNat

/-! ## Rounding to the nearest double

A quotient of natural numbers, counted in units, is rounded to the nearest pattern, and halfway
cases go to the even one. Because a carry out of the significand runs into the exponent, one
rounded division yields the whole pattern; from halfway above the largest finite double onwards
the result is the infinite pattern.
-/

/-- The natural number nearest to `p / q`; a tie goes to the even neighbour. -/
def roundDiv (p q : Nat) : Nat :=
  if 2 * (p % q) < q then p / q
  else if q < 2 * (p % q) then p / q + 1
  else p / q + p / q % 2

/-- How many binary digits of a magnitude of `units` lie below the significand of a double. -/
def droppedDigits (units : Nat) : Nat := units.log2 - 52

/-- The pattern nearest to `p / q` units. -/
def nearestPattern (p q : Nat) : Nat :=
  let dropped := droppedDigits (p / q)
  min infinitePattern (dropped * binade + roundDiv p (q * Nat.pow 2 dropped))

/-- The double nearest to a whole number of units, with the given sign. -/
def ofUnits (negative : Bool) (units : Nat) : Float :=
  ofPattern negative (nearestPattern units 1)

/-- The pattern nearest to the number `p / q`. -/
def patternOfRatio (p q : Nat) : Nat := nearestPattern (p * unitsPerOne) q

/-- The double nearest to an integer, unless that would be infinite. Zero is positive. -/
def ofInt? (n : Int) : Option Float :=
  let pattern := patternOfRatio n.natAbs 1
  if pattern < infinitePattern then some (ofPattern (n < 0) pattern) else none

/-- The value of a double that is an integer. -/
def toInt? (x : Float) : Option Int :=
  match view x with
  | .finite negative units =>
    let whole : Int := (units / unitsPerOne : Nat)
    if units % unitsPerOne = 0 then some (if negative then -whole else whole) else none
  | _ => none

/-! ## The truncated remainder

Units turn the remainder of two doubles into the remainder of two natural numbers. The result is a
multiple of the finer of the two operands' steps and not larger than the dividend, so it is itself
a double and `ofUnits` rounds nothing away.
-/

/-- The remainder of a division truncated toward zero. It has the sign of the dividend, also where
it is zero; an infinite divisor leaves a finite dividend as it is; an infinite dividend or a zero
divisor has no remainder. -/
def remainder (a b : Float) : Float :=
  match view a, view b with
  | .finite negative units, .finite _ divisor =>
    if divisor = 0 then nan else ofUnits negative (units % divisor)
  | .finite _ _, .infinite _ => a
  | _, _ => nan

end Criterion.Binary64
