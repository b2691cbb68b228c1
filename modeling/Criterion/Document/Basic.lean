import Criterion.Datum.Basic

/-!
# Configuration documents

A document is a tree of tables whose leaves are data. A table comes about in three ways: a header
names it, a dotted key leads through it, or it only lies on the way to the table of a header. The
first sort cannot be opened again by any means, the second no longer once the next header is read,
the third still can. A series is a list of tables of which headers in double brackets append one
each; what follows concerns the last of them.
-/

namespace Criterion

/-- How a table came about. -/
inductive Origin where
  | declared
  | dotted
  | passed
  deriving DecidableEq, Repr

/-- A table, a series of tables or a leaf of a document. Entries keep the order in which they first
appear. The tables of a series before the last are finished. -/
inductive Document where
  | leaf (d : Datum)
  | table (origin : Origin) (entries : List (String × Document))
  | series (earlier : List Datum) (last : List (String × Document))

namespace Document

/-- Named parts of a document. -/
abbrev Entries := List (String × Document)

mutual

/-- A document as a datum. -/
def toDatum : Document → Datum
  | leaf d => d
  | table _ entries => .dictionary (toEntries entries)
  | series earlier last => .list (earlier ++ [.dictionary (toEntries last)])

/-- The entries of a table as those of a dictionary. -/
def toEntries : Entries → List (Datum × Datum)
  | [] => []
  | (name, document) :: rest => (.text name, toDatum document) :: toEntries rest

end

mutual

/-- Close the tables of dotted keys, as every header does. -/
def settled : Document → Document
  | leaf d => leaf d
  | table .dotted entries => table .declared (settledEntries entries)
  | table origin entries => table origin (settledEntries entries)
  | series earlier last => series earlier (settledEntries last)

/-- Close the tables of dotted keys in each of some entries. -/
def settledEntries : Entries → Entries
  | [] => []
  | (name, document) :: rest => (name, settled document) :: settledEntries rest

end

/-- Change the entry under a name, or make one at the end. -/
def change (entries : Entries) (name : String) (f : Option Document → Option Document) :
    Option Entries :=
  match entries with
  | [] => (f none).map fun new => [(name, new)]
  | (key, old) :: rest =>
    if key = name then (f (some old)).map fun new => (key, new) :: rest
    else (change rest name f).map fun rest => (key, old) :: rest

/-- Change what is at the end of a path. The tables on the way are made where they are missing. -/
def changeAt (f : Option Document → Option Document) :
    (path : List String) → Option Document → Option Document
  | [], found => f found
  | name :: path, none => (change [] name (changeAt f path)).map (table .passed)
  | name :: path, some (table origin entries) =>
    (change entries name (changeAt f path)).map (table origin)
  | name :: path, some (series earlier last) =>
    (change last name (changeAt f path)).map (series earlier)
  | _ :: _, some (leaf _) => none

/-- Declare the table at a path, unless it is closed. -/
def declare : Option Document → Option Document
  | none => some (table .declared [])
  | some (table .declared _) => none
  | some (table _ entries) => some (table .declared entries)
  | some _ => none

/-- Append a table to the series at a path, or begin one. -/
def append : Option Document → Option Document
  | none => some (series [] [])
  | some (series earlier last) => some (series (earlier ++ [.dictionary (toEntries last)]) [])
  | some _ => none

/-- Put a datum under a dotted key, given by its names. No value and no closed table may be in the
way, and the last name must be free. -/
def put (d : Datum) : (names : List String) → Option Document → Option Document
  | [], none => some (leaf d)
  | [], some _ => none
  | name :: names, none => (change [] name (put d names)).map (table .dotted)
  | _ :: _, some (table .declared _) => none
  | name :: names, some (table _ entries) => (change entries name (put d names)).map (table .dotted)
  | _ :: _, some _ => none

/-- Put a datum under a dotted key among the entries of a table. -/
def putEntry (d : Datum) (names : List String) (entries : Entries) : Option Entries :=
  match names with
  | [] => none
  | name :: names => change entries name (put d names)

/-- Put a datum under a dotted key into the table or the last table of the series at a path. -/
def putWithin (d : Datum) (names : List String) : Option Document → Option Document
  | some (table origin entries) => (putEntry d names entries).map (table origin)
  | some (series earlier last) => (putEntry d names last).map (series earlier)
  | _ => none

end Document

end Criterion
