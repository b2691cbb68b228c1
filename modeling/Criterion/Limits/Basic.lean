import Criterion.Datum.Conversion

/-!
# Limits

The limits bound what is accepted before and during parsing. Their ranges are part of the type, so
every value of it can be used for parsing.
-/

namespace Criterion

/-- The greatest length of a source and the greatest depth of nesting. -/
structure Limits where
  maxLength : Nat
  maxDepth : Nat
  one_le_maxLength : 1 ≤ maxLength
  one_le_maxDepth : 1 ≤ maxDepth
  maxDepth_le : maxDepth ≤ deepestLimit
  deriving DecidableEq, Repr

namespace Limits

/-- The depth of limits is one that can be given for parsing. -/
theorem maxDepth_inRange (limits : Limits) :
    (1 : Int) ≤ limits.maxDepth ∧ (limits.maxDepth : Int) ≤ deepestLimit :=
  ⟨Int.ofNat_le.2 limits.one_le_maxDepth, Int.ofNat_le.2 limits.maxDepth_le⟩

/-- The greatest length where none is given. -/
def defaultLength : Nat := 1000

/-- The greatest depth where none is given. -/
def defaultDepth : Nat := 100

theorem one_le_defaultLength : 1 ≤ defaultLength := by decide

theorem one_le_defaultDepth : 1 ≤ defaultDepth := by decide

theorem defaultDepth_le : defaultDepth ≤ deepestLimit := by decide

/-- The limits in force where none are given. -/
def default : Limits where
  maxLength := defaultLength
  maxDepth := defaultDepth
  one_le_maxLength := one_le_defaultLength
  one_le_maxDepth := one_le_defaultDepth
  maxDepth_le := defaultDepth_le

end Limits

end Criterion

namespace Criterion.Limits

/-! ## Limits from settings

Settings come as a dictionary of data. A setting may be written as any datum that stands for an
integer; what does not, is out of range or is no setting at all is reported, the length first,
then the depth, then the strangers in their order.
-/

/-- The lengths that can be set. -/
abbrev Length := { n : Nat // 1 ≤ n }

/-- The depths that can be set. -/
abbrev Depth := { n : Nat // 1 ≤ n ∧ n ≤ deepestLimit }

/-- The length where none is set. -/
def lengthAbsent : Length := ⟨defaultLength, one_le_defaultLength⟩

/-- The depth where none is set. -/
def depthAbsent : Depth := ⟨defaultDepth, one_le_defaultDepth, defaultDepth_le⟩

/-- An integer as a length. -/
def lengthOf (n : Int) : Except Complaint Length :=
  if h : 1 ≤ n then .ok ⟨n.toNat, by omega⟩ else .error (.atLeast 1)

/-- An integer as a depth. -/
def depthOf (n : Int) : Except Complaint Depth :=
  if h : 1 ≤ n then
    if h' : n ≤ deepestLimit then .ok ⟨n.toNat, by omega⟩ else .error (.atMost deepestLimit)
  else .error (.atLeast 1)

/-- The name of the setting for the length. -/
def lengthName : String := "max_length"

/-- The name of the setting for the depth. -/
def depthName : String := "max_depth"

/-- A setting read from a dictionary, or its default where it is absent. -/
def setting {α : Type} (entries : List (Datum × Datum)) (name : String) (absent : α)
    (ofInteger : Int → Except Complaint α) : Except Complaint α :=
  match Datum.lookup? entries name with
  | none => .ok absent
  | some d => d.toInteger >>= ofInteger

/-- How a key that is no text is referred to: truth values count as integers. -/
def placeOf : Datum → String
  | .boolean b => toString (Datum.truthInteger b)
  | key => key.literal

/-- The problem with an entry that is no setting. -/
def stranger? : Datum × Datum → Option Problem
  | (.text name, _) =>
    if name = lengthName || name = depthName then none else some ⟨name, .extraForbidden⟩
  | (key, _) => some ⟨placeOf key, .invalidKey⟩

/-- The problem with a setting. -/
def problemOf {α : Type} (name : String) : Except Complaint α → List Problem
  | .ok _ => []
  | .error complaint => [⟨name, complaint⟩]

/-- The limits that settings give. -/
def ofSettings : Datum → Except Failure Limits
  | .dictionary entries =>
    let length := setting entries lengthName lengthAbsent lengthOf
    let depth := setting entries depthName depthAbsent depthOf
    match length, depth, entries.filterMap stranger? with
    | .ok length, .ok depth, [] =>
      .ok ⟨length.1, depth.1, length.2, depth.2.1, depth.2.2⟩
    | length, depth, strangers =>
      .error (.invalid (problemOf lengthName length ++ problemOf depthName depth ++ strangers))
  | _ => .error (.invalid [⟨"", .modelType "ExpressionLimits"⟩])

/-! ## Overriding limits from the process environment

Two environment variables override the limits one by one. What they hold is validated together
with the limit that is not overridden.
-/

/-- The environment variable for the length. -/
def lengthVariable : String := "SAFECOND_MAX_LENGTH"

/-- The environment variable for the depth. -/
def depthVariable : String := "SAFECOND_MAX_DEPTH"

/-- The setting that an environment variable overrides, or the present one. -/
def overridden (present : Nat) : Option String → Datum
  | some text => .text text
  | none => .integer present

/-- The limits with the overrides that an environment holds. -/
def override (base : Limits) (environ : String → Option String) : Except Failure Limits :=
  match environ lengthVariable, environ depthVariable with
  | none, none => .ok base
  | length, depth =>
    ofSettings (.dictionary
      [(.text lengthName, overridden base.maxLength length),
        (.text depthName, overridden base.maxDepth depth)])

end Criterion.Limits
