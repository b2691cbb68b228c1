import Criterion.Binary64.Text

/-!
# Values

An expression only ever takes and yields numbers, which are doubles, and booleans. Coercion
between the two is total. Equality of values differs from comparison of doubles in one point: a
result that is no number is the same value as another such result.
-/

namespace Criterion

/-- The kinds a value, or an expression whose value is not known yet, can have. -/
inductive Kind where
  | number
  | boolean
  | any
  deriving DecidableEq, Repr

/-- The word for a kind. -/
def Kind.name : Kind → String
  | number => "number"
  | boolean => "boolean"
  | any => "any"

/-- What an expression yields. -/
inductive Value where
  | number (x : Float)
  | boolean (b : Bool)
  deriving DecidableEq

namespace Value

/-- The kind of a value, never `any`. -/
def kind : Value → Kind
  | number _ => .number
  | boolean _ => .boolean

/-- A value as a number: booleans count as one and zero. -/
def toNumber : Value → Float
  | number x => x
  | boolean b => if b then Binary64.one else Binary64.zero false

/-- A value as a boolean: every number but the zeros is true. -/
def toBoolean : Value → Bool
  | number x => !(x == Binary64.zero false)
  | boolean b => b

/-- How a value is shown. -/
def text : Value → String
  | number x => Binary64.displayText x
  | boolean b => if b then "true" else "false"

/-- Equality of values: same kind and equal content, where no number equals no number. -/
def equal : Value → Value → Bool
  | number x, number y => (Binary64.isNan x && Binary64.isNan y) || x == y
  | boolean a, boolean b => a == b
  | _, _ => false

instance : BEq Value := ⟨equal⟩

/-- A hash that equal values share: all that are no number have one, and so have the two zeros. -/
protected def hash : Value → UInt64
  | number x =>
    if Binary64.isNan x then 0
    else if x == Binary64.zero false then 1
    else mixHash 2 x.toBits
  | boolean b => mixHash 3 (if b then 1 else 0)

instance : Hashable Value := ⟨Value.hash⟩

/-- How many members the set of two values has. -/
def distinct (a b : Value) : Nat := if hash a == hash b && a == b then 1 else 2

end Value

end Criterion
