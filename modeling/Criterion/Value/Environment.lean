import Criterion.Failure.Basic

/-!
# Environments

An environment gives the variables of an expression their values. It is made from a caller's
dictionary, entry by entry: the first entry that is not a name with a number or a boolean is
reported, whether or not an expression uses it. The report has the key written in it, so that a key
that cannot be written fails in a way of its own.
-/

namespace Criterion

/-- Variables with their values, in the order in which they were supplied. -/
structure Environment where
  bindings : List (String × Value)
  deriving DecidableEq

namespace Environment

/-- The environment without variables. -/
def empty : Environment := ⟨[]⟩

/-- The value of a variable. -/
def find? (env : Environment) (name : String) : Option Value :=
  (env.bindings.find? fun binding => binding.1 == name).map (·.2)

/-- The environment in which a variable has a new value. -/
def bind (env : Environment) (name : String) (value : Value) : Environment :=
  ⟨(name, value) :: env.bindings⟩

end Environment

/-- Reject what is supplied for a variable, if the name of the variable can be written. -/
def rejectVariable {α : Type} (name : Datum) (typeName : String) : Except Failure α :=
  match name.literal? with
  | some _ => reject (.unsupportedVariable name typeName) none
  | none => .error (.misuse (.longInteger none))

/-- The value of an integer supplied for a variable, given the double nearest to it if that is
finite. -/
def Value.ofNearest (name : Datum) : Option Float → Except Failure Value
  | some x => .ok (.number x)
  | none => rejectVariable name "int (out of float range)"

/-- The value of a datum supplied for a variable. Truth values become booleans, integers and
doubles become numbers, and values that are wrapped already stay as they are. -/
def Value.ofDatum (name : Datum) : Datum → Except Failure Value
  | .wrapped v => .ok v
  | .boolean b => .ok (.boolean b)
  | .integer n => Value.ofNearest name (Binary64.ofInt? n)
  | .float x => .ok (.number x)
  | d => rejectVariable name d.typeName

namespace Environment

/-- The binding made from an entry of a caller's dictionary. -/
def bindingOf : Datum × Datum → Except Failure (String × Value)
  | (.text name, raw) => do return (name, ← Value.ofDatum (.text name) raw)
  | (key, _) => rejectVariable key ("key of type " ++ key.typeName)

/-- The environment of the variables supplied by a caller: none, or a dictionary. -/
def ofDatum : Datum → Except Failure Environment
  | .null => .ok empty
  | .dictionary entries => do return ⟨← entries.mapM bindingOf⟩
  | d => rejectVariable (.text "<variables>") d.typeName

/-- The environment as a dictionary of values. -/
def toDatum (env : Environment) : Datum :=
  .dictionary (env.bindings.map fun binding => (.text binding.1, .wrapped binding.2))

end Environment

end Criterion
