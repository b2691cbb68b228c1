import Criterion.Datum.Basic

/-!
# Arguments on the command line

Options stand before and among the arguments of a command. One of them gives bindings, which have
texts of their own.
-/

namespace Criterion.CommandLine

/-! ## Options on the command line

An option has a long name, written after two dashes, and may have a letter, written after one.
Letters can share a dash. The value of an option is what follows an equals sign, or the rest of the
letters, or the next argument. Two dashes alone end the options.
-/

/-- An option. -/
structure OptionSpec where
  name : String
  letter : Option Char
  takesValue : Bool
  deriving DecidableEq, Repr

/-- Options as they were given, each by its name and with its value. -/
abbrev Given := List (String × String)

/-- What an argument that begins with a dash says. -/
inductive Reading where
  /-- Nothing that is known. -/
  | unknown
  /-- Some options. -/
  | options (given : Given)
  /-- Some options, and then one whose value is the next argument. -/
  | wanting (given : Given) (name : String)
  deriving DecidableEq, Repr

/-- Read letters that share a dash. -/
def readLetters (specs : List OptionSpec) (given : Given) : List Char → Reading
  | [] => .options given
  | c :: rest =>
    match specs.find? fun spec => spec.letter == some c with
    | none => .unknown
    | some spec =>
      if !spec.takesValue then readLetters specs (given ++ [(spec.name, "")]) rest
      else if rest.isEmpty then .wanting given spec.name
      else .options (given ++ [(spec.name, String.ofList rest)])

/-- Read an argument that begins with a dash. -/
def readOption (specs : List OptionSpec) (arg : List Char) : Reading :=
  let name := String.ofList (arg.takeWhile (· != '='))
  let value? := match arg.dropWhile (· != '=') with
    | [] => none
    | _ :: value => some (String.ofList value)
  match specs.find? fun spec => spec.name == name, value? with
  | some spec, some value =>
    if spec.takesValue then .options [(spec.name, value)] else .unknown
  | some spec, none =>
    if spec.takesValue then .wanting [] spec.name else .options [(spec.name, "")]
  | none, _ =>
    match arg with
    | '-' :: '-' :: _ => .unknown
    | _ :: letters => readLetters specs [] letters
    | [] => .unknown

/-- Whether an argument is to be read as an option. -/
def looksLikeOption (arg : List Char) : Bool := arg.head? == some '-' && arg.length != 1

/-- Take the options out of a list of arguments. What is left are the other arguments in their
order; unless options may stand among them, the first of them ends the options. -/
def takeOptions (specs : List OptionSpec) (among : Bool) (given : Given) (others : List String) :
    List String → Option (Given × List String)
  | [] => some (given, others)
  | arg :: rest =>
    if arg = "--" then some (given, others ++ rest)
    else if looksLikeOption arg.toList then
      match readOption specs arg.toList with
      | .unknown => none
      | .options more => takeOptions specs among (given ++ more) others rest
      | .wanting more name =>
        match rest with
        | [] => none
        | value :: rest => takeOptions specs among (given ++ more ++ [(name, value)]) others rest
    else if among then takeOptions specs among given (others ++ [arg]) rest
    else some (given, others ++ arg :: rest)

/-- The values given for an option, in their order. -/
def valuesOf (given : Given) (name : String) : List String :=
  (given.filter fun option => option.1 == name).map (·.2)

/-- Whether an option is given. -/
def isGiven (given : Given) (name : String) : Bool := given.any fun option => option.1 == name

/-! ## Bindings on the command line

A binding gives a variable a number or a truth value in the form `NAME=VALUE`. The first equals
sign divides it, and white space around either part is dropped.
-/

/-- A variable bound to a value. -/
structure Binding where
  name : String
  value : Value
  deriving DecidableEq

/-- Why a text is no binding. -/
inductive BindingError where
  | form (raw : String)
  | value (name : String)
  deriving DecidableEq, Repr

/-- The message about a text that is no binding. -/
def BindingError.message : BindingError → String
  | form raw => "expected NAME=VALUE, got " ++ Text.quoted raw
  | value name => "value for " ++ Text.quoted name ++ " must be a number, true or false"

namespace Binding

/-- A text without the white space around it. -/
def trimmed (text : List Char) : List Char := Text.trim Text.isNameBlank text

/-- The value that a text spells. -/
def valueOf? (text : List Char) : Option Value :=
  let word := String.ofList text
  if word = "true" then some (.boolean true)
  else if word = "false" then some (.boolean false)
  else (Numeral.readFloat? text).map .number

/-- Read a binding. -/
def parse (raw : String) : Except BindingError Binding :=
  let text := raw.toList
  let name := trimmed (text.takeWhile (· != '='))
  match text.dropWhile (· != '=') with
  | [] => .error (.form raw)
  | _ :: value =>
    if name.isEmpty then .error (.form raw)
    else
      match valueOf? (trimmed value) with
      | some v => .ok ⟨String.ofList name, v⟩
      | none => .error (.value (String.ofList name))

/-- The value of a binding as a datum. -/
def datum (binding : Binding) : Datum :=
  match binding.value with
  | .number x => .float x
  | .boolean b => .boolean b

/-- The variables that a list of bindings sets; of two with one name the later one holds. -/
def toDatum (bindings : List Binding) : Datum :=
  .ofEntries (bindings.map fun binding => (.text binding.name, binding.datum))

end Binding

end Criterion.CommandLine
