import Criterion.Token.Basic

/-!
# From text to tokens

A source is cut from left to right into the longest pieces: a blank, a run of digits and points
that begins with a digit, a word, a parenthesis or an operator. Blanks are dropped, every other
piece becomes a token at the position where it begins, and a token for the end closes the list.
The leftmost piece that is no token is reported.
-/

namespace Criterion.Token

/-! ## Reserved names

These names can stand in no expression. They would mean something to the hosts that expressions
are embedded in, so the lexer rejects them before anything else sees them.
-/

/-- Names by which objects give access to themselves. -/
def objectNames : List String :=
  ["__proto__", "prototype", "constructor", "__defineGetter__", "__defineSetter__",
    "__lookupGetter__", "__lookupSetter__", "__class__", "__bases__", "__mro__",
    "__subclasses__", "__dict__", "__globals__", "__code__", "__closure__",
    "__getattribute__", "__reduce__", "__reduce_ex__", "self", "this"]

/-- Names of global objects and of functions that reach the host. -/
def hostNames : List String :=
  ["eval", "exec", "compile", "Function", "Object", "Array", "String", "Number", "Boolean",
    "Symbol", "Proxy", "Reflect", "globalThis", "window", "global", "globals", "locals", "vars",
    "getattr", "setattr", "delattr", "breakpoint", "open", "process", "__builtins__", "builtins"]

/-- Names that load further code. -/
def loaderNames : List String :=
  ["require", "module", "exports", "import", "__import__", "importlib", "__loader__", "__spec__",
    "os", "sys", "subprocess"]

/-- All reserved names. -/
def reservedNames : List String := objectNames ++ hostNames ++ loaderNames

/-- Whether a name may not be used. -/
def isReserved (name : String) : Bool := reservedNames.contains name

/-! ## Pieces and their tokens -/

/-- The classes of pieces that a source is cut into. -/
inductive PieceClass where
  | blank
  | number
  | word
  | opening
  | closing
  | operator
  deriving DecidableEq, Repr

/-- A piece of a source. -/
structure Piece where
  kind : PieceClass
  text : List Char
  deriving DecidableEq, Repr

/-- The characters of a number's run after its first digit. -/
def isNumberChar (c : Char) : Bool := c.isDigit || c == '.'

/-- The characters that a word begins with. -/
def isWordStart (c : Char) : Bool := c.isAlpha || c == '_'

/-- The characters of a word. -/
def isWordChar (c : Char) : Bool := c.isAlphanum || c == '_'

/-- The spellings of the operators, longer ones first. -/
def operatorSymbols : List String :=
  ["===", "!==", "==", "!=", "<=", ">=", "&&", "||", "+", "-", "*", "/", "%", "<", ">", "!"]

/-- The longest operator at the front of a text. -/
def operatorAt? (text : List Char) : Option (List Char) :=
  (operatorSymbols.map String.toList).find? fun symbol => symbol.isPrefixOf text

/-- The piece at the front of a text that begins with a given character. -/
def pieceAt? (c : Char) (rest : List Char) : Option Piece :=
  if Text.isTokenBlank c then some ⟨.blank, [c]⟩
  else if c.isDigit then some ⟨.number, c :: rest.takeWhile isNumberChar⟩
  else if isWordStart c then some ⟨.word, c :: rest.takeWhile isWordChar⟩
  else if c = '(' then some ⟨.opening, [c]⟩
  else if c = ')' then some ⟨.closing, [c]⟩
  else (operatorAt? (c :: rest)).map fun symbol => ⟨.operator, symbol⟩

/-- The token that a word stands for. -/
def ofWord (word : String) (pos : Nat) : Except Failure Token :=
  if isReserved word then reject (.blockedIdentifier word) (some pos)
  else if word = "true" then .ok ⟨.boolean, .boolean true, pos⟩
  else if word = "false" then .ok ⟨.boolean, .boolean false, pos⟩
  else .ok ⟨.ident, .text word, pos⟩

/-- The token that a piece stands for; a blank stands for none. -/
def ofPiece (piece : Piece) (pos : Nat) : Except Failure (Option Token) :=
  let text := String.ofList piece.text
  match piece.kind with
  | .blank => .ok none
  | .number =>
    match Numeral.readFloat? piece.text with
    | some x => .ok (some ⟨.number, .float x, pos⟩)
    | none => reject (.invalidNumber text) (some pos)
  | .word => (ofWord text pos).map some
  | .opening => .ok (some ⟨.opening, .text text, pos⟩)
  | .closing => .ok (some ⟨.closing, .text text, pos⟩)
  | .operator => .ok (some ⟨.operator, .text text, pos⟩)

/-- The tokens of a text that begins at a position. The first `passed` characters belong to a piece
that is in the list of tokens already, which is kept in reverse. -/
def scan (passed pos : Nat) (done : List Token) : List Char → Except Failure (List Token)
  | [] => .ok (done.reverse ++ [⟨.eof, .text "", pos⟩])
  | c :: rest =>
    match passed with
    | passed + 1 => scan passed (pos + 1) done rest
    | 0 =>
      match pieceAt? c rest with
      | none => reject (.unexpectedCharacter c.toString) (some pos)
      | some piece =>
        match ofPiece piece pos with
        | .error failure => .error failure
        | .ok token => scan (piece.text.length - 1) (pos + 1) (token.toList ++ done) rest

/-- The tokens of a source. A source longer than the limit is not looked at. -/
def ofSource (source : String) (maxLength : Int) : Except Failure (List Token) :=
  if maxLength < source.length then reject (.tooLong source.length maxLength) none
  else scan 0 0 [] source.toList

end Criterion.Token
