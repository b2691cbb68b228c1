import Criterion.Proofs.Binary64.SignedText
import Criterion.Proofs.Expr.Names

/-!
# The printer at work

The text of a tree is put together from the texts of its parts. The printer writes it from a list of
what remains to be written, which stands for the texts of all its items, one after the other: it
writes a text or a leaf, and it replaces an operator by its symbol and its operands. From whatever
is written and pending it comes to an end, with the text of each piece behind the other. The
parentheses of a tree's text are those that the binary operators ask for, one pair each around the
pairs of their operands, as long as there are none in the names of variables.
-/

namespace Criterion.Expr

open DyckStep

/-! ## The text by structure -/

/-- The canonical text of a tree, from those of its parts. -/
def text : Expr → String
  | number x => Binary64.displayText x
  | boolean b => truthText b
  | ident name => name
  | unary op operand => op.symbol ++ operand.text
  | binary op left right => "(" ++ left.text ++ " " ++ op.symbol ++ " " ++ right.text ++ ")"

/-- What an item adds to the text. -/
def Piece.content : Piece → String
  | tree e => e.text
  | text s => s

/-- What the items that remain add to the text. -/
def contents : List Piece → String
  | [] => ""
  | piece :: pieces => piece.content ++ contents pieces

/-- The printer writes the text of each item behind what it has written. -/
theorem writePieces_eq (done : String) (pieces : List Piece) :
    writePieces done pieces = done ++ contents pieces := by
  induction done, pieces using writePieces.induct with
  | case1 done => rw [writePieces, contents, String.append_empty]
  | case2 done s rest ih => rw [writePieces, ih, contents, Piece.content, String.append_assoc]
  | case3 done x rest ih =>
      rw [writePieces, ih, contents, Piece.content, text, String.append_assoc]
  | case4 done b rest ih =>
      rw [writePieces, ih, contents, Piece.content, text, String.append_assoc]
  | case5 done name rest ih =>
      rw [writePieces, ih, contents, Piece.content, text, String.append_assoc]
  | case6 done op operand rest ih =>
      rw [writePieces, ih]
      simp only [contents, Piece.content, text, String.append_assoc]
  | case7 done op left right rest ih =>
      rw [writePieces, ih]
      simp only [contents, Piece.content, text, String.append_assoc]

/-- The printer writes the text of a tree. -/
theorem render_eq_text (e : Expr) : render e = e.text := by
  rw [render, writePieces_eq, contents, Piece.content, contents, String.append_empty,
    String.empty_append]

/-! ## Turns -/

/-- What is written, and what is still to be written, the next piece first. -/
structure Writing where
  written : String
  pending : List Piece

/-- One turn of the printer takes up the next piece. A text or a leaf is written; an operator gives
way to its symbol and its operands, which stand in parentheses if there are two. -/
def Writing.turn : Writing → Option Writing
  | ⟨_, []⟩ => none
  | ⟨written, .text s :: rest⟩ => some ⟨written ++ s, rest⟩
  | ⟨written, .tree (.number x) :: rest⟩ => some ⟨written ++ Binary64.displayText x, rest⟩
  | ⟨written, .tree (.boolean b) :: rest⟩ => some ⟨written ++ truthText b, rest⟩
  | ⟨written, .tree (.ident name) :: rest⟩ => some ⟨written ++ name, rest⟩
  | ⟨written, .tree (.unary op operand) :: rest⟩ =>
    some ⟨written, .text op.symbol :: .tree operand :: rest⟩
  | ⟨written, .tree (.binary op left right) :: rest⟩ =>
    some ⟨written, .text "(" :: .tree left :: .text (" " ++ op.symbol ++ " ") :: .tree right ::
      .text ")" :: rest⟩

/-- What a number of turns lead to. -/
def Writing.turns : Nat → Writing → Option Writing
  | 0, w => some w
  | n + 1, w => w.turn.bind (turns n)

/-- How many turns a tree takes: one for each node and one for each text that an operator adds. -/
def work : Expr → Nat
  | number _ | boolean _ | ident _ => 1
  | unary _ operand => operand.work + 2
  | binary _ left right => left.work + right.work + 4

/-- How many turns a list of pieces takes. -/
def workload : List Piece → Nat
  | [] => 0
  | .text _ :: rest => workload rest + 1
  | .tree e :: rest => e.work + workload rest

variable {e : Expr} {w w' : Writing}

namespace Writing

/-- Turns can be taken in two parts. -/
theorem turns_add (m n : Nat) (w : Writing) : turns (m + n) w = (turns m w).bind (turns n) := by
  induction m generalizing w with
  | zero =>
    rw [Nat.zero_add]
    rfl
  | succ m ih =>
    rw [Nat.succ_add, turns, turns]
    cases w.turn with
    | none => rfl
    | some w' => exact ih w'

/-- The turns that a tree takes write its text, whatever is written before and pending behind it. -/
theorem turns_tree (e : Expr) (written : String) (rest : List Piece) :
    turns e.work ⟨written, .tree e :: rest⟩ = some ⟨written ++ e.text, rest⟩ := by
  induction e generalizing written rest with
  | number x | boolean b | ident name => rfl
  | unary op operand ih =>
    have hoperand := ih (written ++ op.symbol) rest
    rw [String.append_assoc] at hoperand
    exact hoperand
  | binary op left right ihl ihr =>
    have hwork : work (.binary op left right) = left.work + (right.work + 1 + 1) + 1 + 1 := by
      rw [work]
      omega
    have hleft := ihl (written ++ "(")
      (.text (" " ++ op.symbol ++ " ") :: .tree right :: .text ")" :: rest)
    have hright := ihr (written ++ "(" ++ left.text ++ (" " ++ op.symbol ++ " "))
      (.text ")" :: rest)
    -- The node and the opening parenthesis take a turn each before the left operand is taken up.
    rw [hwork]
    change turns (left.work + (right.work + 1 + 1)) ⟨written ++ "(", _⟩ = _
    rw [turns_add, hleft, Option.bind_some]
    change turns (right.work + 1) _ = _
    rw [turns_add, hright]
    simp only [Option.bind_some, turns, turn, text, String.append_assoc]

/-- From whatever is written and pending the printer comes to an end, with what it writes in all. -/
theorem turns_workload (written : String) (pending : List Piece) :
    turns (workload pending) ⟨written, pending⟩ = some ⟨writePieces written pending, []⟩ := by
  induction pending generalizing written with
  | nil => rw [writePieces, workload, turns]
  | cons piece rest ih =>
    have hwrites : writePieces written (piece :: rest) =
        writePieces (written ++ piece.content) rest := by
      rw [writePieces_eq, writePieces_eq, contents, String.append_assoc]
    rw [hwrites]
    cases piece with
    | text s => exact ih (written ++ s)
    | tree e =>
      rw [workload, turns_add, turns_tree, Option.bind_some]
      exact ih (written ++ e.text)

end Writing

/-! ## Parentheses -/

/-- The step that a parenthesis is, upwards for an opening one. -/
def parenthesis? (c : Char) : Option DyckStep :=
  if c = '(' then some U else if c = ')' then some D else none

/-- The parentheses of a text. -/
def parentheses (text : String) : List DyckStep := text.toList.filterMap parenthesis?

/-- The pairs of parentheses that a tree asks for: one for each binary operator, around the pairs of
its operands. -/
def pairs : Expr → DyckWord
  | number _ | boolean _ | ident _ => 0
  | unary _ operand => operand.pairs
  | binary _ left right => (left.pairs + right.pairs).nest

/-- How many binary operators a tree has. -/
def binaries : Expr → Nat
  | number _ | boolean _ | ident _ => 0
  | unary _ operand => operand.binaries
  | binary _ left right => left.binaries + right.binaries + 1

/-- There is one pair for each binary operator. -/
theorem semilength_pairs (e : Expr) : e.pairs.semilength = e.binaries := by
  induction e with
  | number x | boolean b | ident name => rfl
  | unary op operand ih => exact ih
  | binary op left right ihl ihr =>
    rw [pairs, DyckWord.semilength_nest, DyckWord.semilength_add, ihl, ihr, binaries]

theorem parentheses_append (s t : String) :
    parentheses (s ++ t) = parentheses s ++ parentheses t := by
  rw [parentheses, String.toList_append, List.filterMap_append]
  rfl

private theorem parenthesis?_of_isDigit {c : Char} (h : c.isDigit) : parenthesis? c = none := by
  have hrange : 48 ≤ c.toNat ∧ c.toNat ≤ 57 := Char.isDigit_iff_toNat.1 h
  rw [parenthesis?, if_neg, if_neg]
  · rintro rfl
    contradiction
  · rintro rfl
    contradiction

/-- There are no parentheses in the text of a double. -/
theorem parentheses_displayText (x : Float) : parentheses (Binary64.displayText x) = [] := by
  have hwords : parentheses ("NaN" ++ "Infinity") = [] := by decide
  exact List.filterMap_eq_nil_iff.2 (Binary64.forall_mem_displayText
    (fun _ => parenthesis?_of_isDigit) (by decide) (List.filterMap_eq_nil_iff.1 hwords) x)

private theorem parentheses_unary_symbol (op : UnaryOp) : parentheses op.symbol = [] := by
  cases op <;> decide

private theorem parentheses_binary_symbol (op : BinaryOp) : parentheses op.symbol = [] := by
  cases op <;> decide

/-- The parentheses of a text are the pairs that the tree asks for, unless there are some in
names. -/
theorem parentheses_text (hnames : ∀ name ∈ e.names, parentheses name = []) :
    parentheses e.text = e.pairs.toList := by
  induction e with
  | number x => exact parentheses_displayText x
  | boolean b => cases b <;> decide
  | ident name => exact hnames name (by simp)
  | unary op operand ih =>
    rw [text, parentheses_append, parentheses_unary_symbol, List.nil_append, pairs]
    exact ih hnames
  | binary op left right ihl ihr =>
    rw [names_binary, List.forall_mem_append] at hnames
    have hpairs : (pairs (.binary op left right)).toList =
        [U] ++ (left.pairs.toList ++ right.pairs.toList) ++ [D] := rfl
    have hopening : parentheses "(" = [U] := by decide
    have hblank : parentheses " " = [] := by decide
    have hclosing : parentheses ")" = [D] := by decide
    simp only [text, parentheses_append, parentheses_binary_symbol, ihl hnames.1, ihr hnames.2,
      hpairs, hopening, hblank, hclosing, List.append_nil, List.append_assoc]

/-- A text without either parenthesis has no parentheses. -/
theorem parentheses_eq_nil {s : String} (hopening : '(' ∉ s.toList) (hclosing : ')' ∉ s.toList) :
    parentheses s = [] := by
  refine List.filterMap_eq_nil_iff.2 fun c hc => ?_
  rw [parenthesis?, if_neg (ne_of_mem_of_not_mem hc hopening),
    if_neg (ne_of_mem_of_not_mem hc hclosing)]

/-! ## The text -/

/-- The printer writes the text that a tree has by its structure, and it comes to an end with it,
after one turn for each node and each text of an operator. Unless there are parentheses in the names
of variables, those of the text are balanced, with one pair for each binary operator, around the
pairs of its operands. -/
theorem render_by_structure (e : Expr) :
    render e = e.text ∧
    Writing.turns e.work ⟨"", [.tree e]⟩ = some ⟨render e, []⟩ ∧
    ((∀ name ∈ e.names, '(' ∉ name.toList ∧ ')' ∉ name.toList) →
      parentheses (render e) = e.pairs.toList ∧ e.pairs.semilength = e.binaries) := by
  refine ⟨render_eq_text e, Writing.turns_workload "" [.tree e],
    fun hnames => ⟨?_, semilength_pairs e⟩⟩
  rw [render_eq_text]
  exact parentheses_text fun name hname =>
    parentheses_eq_nil (hnames name hname).1 (hnames name hname).2

/-- A negated sum as a factor is written with the pair of the sum inside that of the product. -/
theorem negatedSum_by_structure :
    (∀ name ∈ names (.binary .multiply (.unary .negate (.binary .add (.ident "a")
        (.boolean true))) (.ident "b")), '(' ∉ name.toList ∧ ')' ∉ name.toList) ∧
      render (.binary .multiply (.unary .negate (.binary .add (.ident "a") (.boolean true)))
        (.ident "b")) = "(-(a + true) * b)" ∧
      parentheses "(-(a + true) * b)" = [U, U, D, D] := by
  obtain ⟨htext, _, hparentheses⟩ := render_by_structure (.binary .multiply
    (.unary .negate (.binary .add (.ident "a") (.boolean true))) (.ident "b"))
  have hnames : ∀ name ∈ names (.binary .multiply (.unary .negate (.binary .add (.ident "a")
      (.boolean true))) (.ident "b")), '(' ∉ name.toList ∧ ')' ∉ name.toList := by
    decide
  have hpairs := (hparentheses hnames).1
  rw [htext] at hpairs
  exact ⟨hnames, htext, hpairs⟩

end Criterion.Expr
