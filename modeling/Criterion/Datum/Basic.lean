import Criterion.Decimal
import Criterion.Text
import Criterion.Value.Basic

/-!
# Data of callers

Variables, settings and tokens made by hand come in as data of any type. A datum knows the name of
its type, its truth, its text and the number it converts to. Equality of data looks through the
numeric types: a truth value equals the integer and the double of the same value. Not every datum
can be written: an integer of very many digits has no literal, nor has anything that holds one.
-/

namespace Criterion

/-- A piece of data of a type not fixed in advance. A dictionary keeps the order of its entries; a
foreign datum is of a type that the library does not know, and comes with its literal if it can be
written. -/
inductive Datum where
  | null
  | boolean (b : Bool)
  | integer (n : Int)
  | float (x : Float)
  | text (s : String)
  | list (items : List Datum)
  | dictionary (entries : List (Datum × Datum))
  | wrapped (v : Value)
  | foreign (type : String) (literal : Option String := some ("<" ++ type ++ ">"))

instance : Inhabited Datum := ⟨.null⟩

namespace Datum

/-- The name of the type of a datum. -/
def typeName : Datum → String
  | null => "NoneType"
  | boolean _ => "bool"
  | integer _ => "int"
  | float _ => "float"
  | text _ => "str"
  | list _ => "list"
  | dictionary _ => "dict"
  | wrapped (.number _) => "Number"
  | wrapped (.boolean _) => "Boolean"
  | foreign type _ => type

/-- The literal of a truth value. -/
def truthLiteral (b : Bool) : String := if b then "True" else "False"

/-- The greatest number of digits of an integer that is read or written in decimal digits. -/
def longestDecimal : Nat := 4300

/-- An integer in decimal digits, unless there are too many of them. -/
def integerLiteral? (n : Int) : Option String :=
  if (Decimal.digitChars n.natAbs).length ≤ longestDecimal then some (toString n) else none

mutual

/-- A datum as a literal, texts in quotes. There is none if an integer in it cannot be written. -/
def literal? : Datum → Option String
  | null => some "None"
  | boolean b => some (truthLiteral b)
  | integer n => integerLiteral? n
  | float x => some (Binary64.literalText x)
  | text s => some (Text.quoted s)
  | list items => return "[" ++ ", ".intercalate (← literals? items) ++ "]"
  | dictionary entries =>
    return "\x7b" ++ ", ".intercalate (← entryLiterals? entries) ++ "\x7d"
  | wrapped (.number x) => some ("Number(value=" ++ Binary64.literalText x ++ ")")
  | wrapped (.boolean b) => some ("Boolean(value=" ++ truthLiteral b ++ ")")
  | foreign _ literal => literal

/-- The literals of the items of a list. -/
def literals? : List Datum → Option (List String)
  | [] => some []
  | item :: items => return (← literal? item) :: (← literals? items)

/-- The literals of the entries of a dictionary. -/
def entryLiterals? : List (Datum × Datum) → Option (List String)
  | [] => some []
  | (key, item) :: entries =>
    return ((← literal? key) ++ ": " ++ (← literal? item)) :: (← entryLiterals? entries)

end

/-- A datum as a literal, or else words for a datum of its type. -/
def literal (d : Datum) : String :=
  d.literal?.getD ("<unprintable " ++ d.typeName ++ " object>")

/-- A datum as a text: a text is itself, a wrapped value is shown as a result, everything else is
written as a literal. -/
def toText : Datum → String
  | text s => s
  | wrapped v => v.text
  | d => d.literal

/-- The truth of a datum: zeros and whatever is empty are false. -/
def isTrue : Datum → Bool
  | null => false
  | boolean b => b
  | integer n => n != 0
  | float x => !(x == Binary64.zero false)
  | text s => !s.isEmpty
  | list items => !items.isEmpty
  | dictionary entries => !entries.isEmpty
  | wrapped _ => true
  | foreign .. => true

/-- The integer that a truth value counts as. -/
def truthInteger (b : Bool) : Int := if b then 1 else 0

mutual

/-- Equality of data across the numeric types. Dictionaries are equal if they have the same
entries, in whatever order. -/
def same : Datum → Datum → Bool
  | null, null => true
  | boolean a, boolean b => a == b
  | boolean a, integer n => truthInteger a == n
  | boolean a, float x => Binary64.toInt? x == some (truthInteger a)
  | integer n, boolean b => n == truthInteger b
  | integer n, integer m => n == m
  | integer n, float x => Binary64.toInt? x == some n
  | float x, boolean b => Binary64.toInt? x == some (truthInteger b)
  | float x, integer n => Binary64.toInt? x == some n
  | float x, float y => x == y
  | text s, text t => s == t
  | list xs, list ys => sameItems xs ys
  | dictionary xs, dictionary ys => xs.length == ys.length && sameEntries xs ys
  | wrapped v, wrapped w => v == w
  | foreign a x, foreign b y => a == b && x == y
  | _, _ => false

/-- Equality of lists, item by item. -/
def sameItems : List Datum → List Datum → Bool
  | [], [] => true
  | x :: xs, y :: ys => same x y && sameItems xs ys
  | _, _ => false

/-- Whether every entry of a dictionary has its like in another. -/
def sameEntries : List (Datum × Datum) → List (Datum × Datum) → Bool
  | [], _ => true
  | (key, item) :: xs, ys => ys.any (fun y => same key y.1 && same item y.2) && sameEntries xs ys

end

/-- Whether a datum can be a member of a set or a key. -/
def isHashable : Datum → Bool
  | list _ => false
  | dictionary _ => false
  | foreign type _ => type != "set"
  | _ => true

/-- Put an entry into a dictionary: a key that is there keeps its place and takes the new item. -/
def putEntry (entries : List (Datum × Datum)) (key item : Datum) : List (Datum × Datum) :=
  if entries.any fun entry => same entry.1 key then
    entries.map fun entry => if same entry.1 key then (entry.1, item) else entry
  else entries ++ [(key, item)]

/-- The dictionary of a list of entries, put in from left to right. -/
def ofEntries (entries : List (Datum × Datum)) : Datum :=
  dictionary (entries.foldl (fun done entry => putEntry done entry.1 entry.2) [])

/-- The item of a dictionary's entries under a name. -/
def lookup? (entries : List (Datum × Datum)) (name : String) : Option Datum :=
  (entries.find? fun entry => match entry.1 with
    | text s => s == name
    | _ => false).map (·.2)

end Datum

end Criterion
