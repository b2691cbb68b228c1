import Criterion.Proofs.Binary64.PlainText
import Criterion.Proofs.Expr.Lexemes

/-!
# Which trees share a canonical text

The text of a tree can be taken apart in one way only: leaves go on up to a blank, a closing
parenthesis or the end, a prefix operator stands before its operand, and an opening parenthesis
begins a binary operator with its operands. Two trees therefore share a text only if leaves of
theirs do, and there is just one such pair of leaves: a literal beyond all doubles is shown by a
word that is the name of a variable, too.
-/

namespace Criterion.Expr

open Token Binary64 Decimal

variable {e e' : Expr} {rest rest' : List Char}

/-- The tree that is read off a canonical text, where an infinite literal is taken for the variable
that it is shown as. -/
def shown : Expr → Expr
  | number x =>
    match view x with
    | .infinite _ => ident (displayText x)
    | _ => number x
  | boolean b => boolean b
  | ident name => ident name
  | unary op operand => unary op operand.shown
  | binary op left right => binary op left.shown right.shown

/-- The leaves of a tree can be read off its text: the numbers are finite and without a sign, and
the names are names that a source can have. -/
def Legible : Expr → Prop
  | number x => ∃ units, view x = .finite false units
  | boolean _ => True
  | ident name => IsName name
  | unary _ operand => operand.Legible
  | binary _ left right => left.Legible ∧ right.Legible

/-- A literal or a variable. -/
def IsLeaf : Expr → Prop
  | number _ | boolean _ | ident _ => True
  | unary .. | binary .. => False

/-! ## Trees that are parsed -/

/-- A tree and what is read off its text are shown alike. -/
theorem text_shown (e : Expr) : e.shown.text = e.text := by
  induction e with
  | number x =>
    rw [shown]
    split <;> rfl
  | boolean b => rfl
  | ident name => rfl
  | unary op operand ih => rw [shown, text, text, ih]
  | binary op left right ihl ihr => rw [shown, text, text, ihl, ihr]

/-- The word that infinity is shown as is the name of a variable. -/
theorem isName_infinity : IsName "Infinity" where
  word := ⟨'I', ['n', 'f', 'i', 'n', 'i', 't', 'y'], rfl, by decide, List.all_eq_true.1 rfl⟩
  free := by decide
  ne_true := by decide
  ne_false := by decide

/-- What is read off the text of a tree that has leaves of a source is legible. -/
theorem legible_shown (hnumbers : ∀ x ∈ e.numbers, ∃ d : Decimal, x = d.toFloat false)
    (hnames : ∀ name ∈ e.names, IsName name) : e.shown.Legible := by
  induction e with
  | number x =>
    obtain ⟨d, rfl⟩ := hnumbers x (by simp [numbers])
    rcases view_toFloat d with ⟨units, hview⟩ | hinfinite
    · simp only [shown, hview]
      exact ⟨units, hview⟩
    · simp only [shown, hinfinite, view_infinite, displayText_infinite]
      exact isName_infinity
  | boolean b => trivial
  | ident name => exact hnames name (by simp)
  | unary op operand ih => exact ih hnumbers hnames
  | binary op left right ihl ihr =>
    rw [numbers, List.forall_mem_append] at hnumbers
    rw [names_binary, List.forall_mem_append] at hnames
    exact ⟨ihl hnumbers.1 hnames.1, ihr hnumbers.2 hnames.2⟩

/-! ## Leaves -/

/-- The characters that can stand in the text of a leaf. -/
def isLeafChar (c : Char) : Bool := c != ' ' && c != ')'

theorem isLeafChar_of_isWordChar {c : Char} (h : isWordChar c) : isLeafChar c := by
  rw [isLeafChar, Bool.and_eq_true, bne_iff_ne, bne_iff_ne]
  refine ⟨?_, ?_⟩ <;> (rintro rfl; contradiction)

private theorem isWordChar_of_isDigit {c : Char} (h : c.isDigit) : isWordChar c := by
  rw [isWordChar, Char.isAlphanum, h, Bool.or_true, Bool.true_or]

/-- A word begins with a character of words, and all its characters are characters of leaves. -/
theorem exists_leaf_of_word {text run : List Char} {c : Char} (htext : text = c :: run)
    (hc : isWordStart c) (hrun : ∀ d ∈ run, isWordChar d) :
    ∃ c tail, text = c :: tail ∧ isWordChar c ∧ ∀ d ∈ c :: tail, isLeafChar d := by
  have hword := isWordChar_of_isWordStart hc
  exact ⟨c, run, htext, hword, List.forall_mem_cons.2
    ⟨isLeafChar_of_isWordChar hword, fun d hd => isLeafChar_of_isWordChar (hrun d hd)⟩⟩

/-- A leaf begins with a character of words, and all its characters are characters of leaves. -/
theorem Legible.exists_leaf (h : e.Legible) (hleaf : e.IsLeaf) : ∃ c tail,
    e.text.toList = c :: tail ∧ isWordChar c ∧ ∀ d ∈ c :: tail, isLeafChar d := by
  cases e with
  | number x =>
    obtain ⟨units, hview⟩ := h
    have hwrites := writes_displayText hview
    obtain ⟨c, tail, htext, hc⟩ := hwrites.starts
    refine ⟨c, tail, htext, isWordChar_of_isDigit hc, fun d hd => ?_⟩
    rw [← htext] at hd
    rw [isLeafChar, Bool.and_eq_true, bne_iff_ne, bne_iff_ne]
    exact hwrites.closed d hd
  | boolean b =>
    obtain ⟨c, run, htext, hc, hrun⟩ := exists_word_truthText b
    exact exists_leaf_of_word htext hc hrun
  | ident name =>
    obtain ⟨c, run, rfl, hc, hrun⟩ := h.word
    exact exists_leaf_of_word String.toList_ofList hc hrun
  | unary op operand => contradiction
  | binary op left right => contradiction

/-- The leaf that a text shows: a truth value, a number if the text begins with a digit, or else a
variable. -/
def leaf? (text : String) : Option Expr :=
  if text = "true" then some (.boolean true)
  else if text = "false" then some (.boolean false)
  else if text.toList.head?.any Char.isDigit then
    (Numeral.decimal? Text.decimalDigit? text.toList).map fun d => .number (d.toFloat false)
  else some (.ident text)

/-- A leaf is read off its text. -/
theorem Legible.leaf?_text (h : e.Legible) (hleaf : e.IsLeaf) : leaf? e.text = some e := by
  cases e with
  | number x =>
    obtain ⟨units, hview⟩ := h
    have hwrites := writes_displayText hview
    obtain ⟨d, hread, hback⟩ := exists_decimal?_displayText hview
    obtain ⟨c, tail, htext, hc⟩ := hwrites.starts
    have hne {word : String} (hword : word.toList.head?.any Char.isDigit = false) :
        displayText x ≠ word := by
      rintro rfl
      rw [htext, List.head?_cons, Option.any_some, hc] at hword
      contradiction
    rw [text, leaf?, if_neg (hne rfl), if_neg (hne rfl), hread, htext, List.head?_cons,
      Option.any_some, if_pos hc, Option.map_some, hback]
  | boolean b => cases b <;> rfl
  | ident name =>
    have hname : IsName name := h
    obtain ⟨c, run, htext, hc, _⟩ := hname.word
    rw [text, leaf?, if_neg hname.ne_true, if_neg hname.ne_false, htext, String.toList_ofList,
      List.head?_cons, Option.any_some, if_neg (not_isDigit_of_isWordStart hc)]
  | unary op operand => contradiction
  | binary op left right => contradiction

/-! ## Reading a text -/

private theorem exists_operator_first (hleaf : ¬ e.IsLeaf) :
    ∃ c tail, e.text.toList = c :: tail ∧ ¬ isWordChar c := by
  cases e with
  | unary op operand =>
    rw [text, String.toList_append]
    cases op
    · exact ⟨'!', _, rfl, by decide⟩
    · exact ⟨'-', _, rfl, by decide⟩
  | binary op left right =>
    rw [text]
    simp only [String.toList_append]
    exact ⟨'(', _, rfl, by decide⟩
  | _ => exact absurd trivial hleaf

/-- The text of a leaf is a maximal run. -/
theorem Legible.maximalRun (h : e.Legible) (hleaf : e.IsLeaf) (hrest : Follows rest) :
    MaximalRun isLeafChar e.text.toList rest := by
  obtain ⟨c, tail, htext, _, hchars⟩ := h.exists_leaf hleaf
  rw [htext]
  refine ⟨hchars, fun d hd => ?_⟩
  rcases hrest d hd with rfl | rfl <;> rfl

/-- What begins with the text of a leaf begins with no other tree. -/
theorem Legible.leaf_append_inj (h : e.Legible) (h' : e'.Legible) (hleaf : e.IsLeaf)
    (hrest : Follows rest) (hrest' : Follows rest')
    (htext : e.text.toList ++ rest = e'.text.toList ++ rest') : e = e' ∧ rest = rest' := by
  by_cases hleaf' : e'.IsLeaf
  · obtain ⟨hsame, hrest⟩ :=
      (h.maximalRun hleaf hrest).append_inj (h'.maximalRun hleaf' hrest') htext
    have hread := h.leaf?_text hleaf
    rw [String.toList_inj.1 hsame, h'.leaf?_text hleaf'] at hread
    exact ⟨(Option.some.inj hread).symm, hrest⟩
  · obtain ⟨c, tail, hfirst, hc, _⟩ := h.exists_leaf hleaf
    obtain ⟨d, tail', hfirst', hd⟩ := exists_operator_first hleaf'
    rw [hfirst, hfirst'] at htext
    obtain ⟨rfl, _⟩ := List.cons.inj htext
    exact absurd hc hd

/-- The characters of an operator with its operands. -/
theorem toList_text_binary (op : BinaryOp) (left right : Expr) (rest : List Char) :
    (binary op left right).text.toList ++ rest =
      '(' :: (left.text.toList ++ ' ' :: (op.symbol.toList ++ ' ' ::
        (right.text.toList ++ ')' :: rest))) := by
  simp [text]

/-- The spelling of a binary operator goes on up to the blank behind it. -/
theorem maximalRun_symbol (op : BinaryOp) (rest : List Char) :
    MaximalRun (· != ' ') op.symbol.toList (' ' :: rest) := by
  have hall : op.symbol.toList.all (· != ' ') = true := by cases op <;> rfl
  refine ⟨List.all_eq_true.1 hall, ?_⟩
  rintro _ ⟨⟩
  rfl

private theorem unary_eq_of_symbol {op op' : UnaryOp} (h : op.symbol = op'.symbol) : op = op' := by
  have hread := UnaryOp.ofSymbol?_symbol op
  rw [h, UnaryOp.ofSymbol?_symbol] at hread
  exact (Option.some.inj hread).symm

private theorem binary_eq_of_symbol {op op' : BinaryOp} (h : op.symbol = op'.symbol) :
    op = op' := by
  have hread := BinaryOp.ofSymbol?_symbol op
  rw [h, BinaryOp.ofSymbol?_symbol] at hread
  exact (Option.some.inj hread).symm

/-- A text begins with the text of at most one legible tree. -/
theorem Legible.text_append_inj (h : e.Legible) (h' : e'.Legible) (hrest : Follows rest)
    (hrest' : Follows rest') (htext : e.text.toList ++ rest = e'.text.toList ++ rest') :
    e = e' ∧ rest = rest' := by
  induction e generalizing e' rest rest' with
  | number x => exact h.leaf_append_inj h' trivial hrest hrest' htext
  | boolean b => exact h.leaf_append_inj h' trivial hrest hrest' htext
  | ident name => exact h.leaf_append_inj h' trivial hrest hrest' htext
  | unary op operand ih =>
    cases e' with
    | unary op' operand' =>
      have hlength : op.symbol.toList.length = op'.symbol.toList.length := by
        cases op <;> cases op' <;> rfl
      rw [text, text, String.toList_append, String.toList_append, List.append_assoc,
        List.append_assoc] at htext
      obtain ⟨hsymbol, hoperand⟩ := List.append_inj htext hlength
      have hlegible : operand'.Legible := h'
      obtain ⟨rfl, hrest⟩ := ih h hlegible hrest hrest' hoperand
      rw [unary_eq_of_symbol (String.toList_inj.1 hsymbol)]
      exact ⟨rfl, hrest⟩
    | binary op' left' right' =>
      rw [toList_text_binary, text, String.toList_append] at htext
      cases op <;> exact absurd (List.cons.inj htext).1 (by decide)
    | _ =>
      obtain ⟨hsame, hrest⟩ := h'.leaf_append_inj h trivial hrest' hrest htext.symm
      exact ⟨hsame.symm, hrest.symm⟩
  | binary op left right ihl ihr =>
    cases e' with
    | binary op' left' right' =>
      rw [toList_text_binary, toList_text_binary] at htext
      obtain ⟨rfl, hmiddle⟩ :=
        ihl h.1 h'.1 (follows_blank _) (follows_blank _) (List.cons.inj htext).2
      obtain ⟨hsymbol, hright⟩ := (maximalRun_symbol op _).append_inj (maximalRun_symbol op' _)
        (List.cons.inj hmiddle).2
      obtain ⟨rfl, hclosing⟩ :=
        ihr h.2 h'.2 (follows_closing _) (follows_closing _) (List.cons.inj hright).2
      rw [binary_eq_of_symbol (String.toList_inj.1 hsymbol)]
      exact ⟨rfl, (List.cons.inj hclosing).2⟩
    | unary op' operand' =>
      rw [toList_text_binary, text, String.toList_append] at htext
      cases op' <;> exact absurd (List.cons.inj htext).1 (by decide)
    | _ =>
      obtain ⟨hsame, hrest⟩ := h'.leaf_append_inj h trivial hrest' hrest htext.symm
      exact ⟨hsame.symm, hrest.symm⟩

/-- Legible trees that are shown alike are the same. -/
theorem Legible.eq_of_text_eq (h : e.Legible) (h' : e'.Legible) (htext : e.text = e'.text) :
    e = e' :=
  (h.text_append_inj h' follows_nil follows_nil (by rw [htext])).1

/-! ## Sources -/

/-- The tree in which the variable that infinity is shown as is taken for an infinite literal. -/
def unshown : Expr → Expr
  | number x => number x
  | boolean b => boolean b
  | ident name => if name = "Infinity" then number (infinite false) else ident name
  | unary op operand => unary op operand.unshown
  | binary op left right => binary op left.unshown right.unshown

/-- Without infinite literals a tree itself is read off its text. -/
theorem shown_eq_self (hnumbers : ∀ x ∈ e.numbers, ∃ d : Decimal, x = d.toFloat false)
    (hfinite : infinite false ∉ e.numbers) : e.shown = e := by
  induction e with
  | number x =>
    obtain ⟨d, rfl⟩ := hnumbers x (by simp [numbers])
    rcases view_toFloat d with ⟨units, hview⟩ | hinfinite
    · simp only [shown, hview]
    · exact absurd (by simp [numbers, hinfinite]) hfinite
  | boolean b => rfl
  | ident name => rfl
  | unary op operand ih => rw [shown, ih hnumbers hfinite]
  | binary op left right ihl ihr =>
    rw [numbers, List.forall_mem_append] at hnumbers
    rw [numbers, List.mem_append, not_or] at hfinite
    rw [shown, ihl hnumbers.1 hfinite.1, ihr hnumbers.2 hfinite.2]

/-- Without the variable that infinity is shown as a tree can be restored from what is read off its
text. -/
theorem unshown_shown (hnumbers : ∀ x ∈ e.numbers, ∃ d : Decimal, x = d.toFloat false)
    (hnames : "Infinity" ∉ e.names) : e.shown.unshown = e := by
  induction e with
  | number x =>
    obtain ⟨d, rfl⟩ := hnumbers x (by simp [numbers])
    rcases view_toFloat d with ⟨units, hview⟩ | hinfinite
    · simp only [shown, hview, unshown]
    · simp only [shown, hinfinite, view_infinite, displayText_infinite, unshown, if_true]
  | boolean b => rfl
  | ident name =>
    rw [names_ident, List.mem_singleton] at hnames
    rw [shown, unshown, if_neg (Ne.symm hnames)]
  | unary op operand ih => rw [shown, unshown, ih hnumbers hnames]
  | binary op left right ihl ihr =>
    rw [numbers, List.forall_mem_append] at hnumbers
    rw [names_binary, List.mem_append, not_or] at hnames
    rw [shown, unshown, ihl hnumbers.1 hnames.1, ihr hnumbers.2 hnames.2]

section Source

variable {source source' : String} {maxLength maxDepth maxLength' maxDepth' : Int}

/-- The canonical text tells the trees of sources apart, but for infinite literals, which are taken
for a variable. Trees with the same text are the same unless one of them has such a literal and one
of them has that variable. -/
theorem render_eq_iff_shown_eq (h : Expr.ofSource source maxLength maxDepth = .ok e)
    (h' : Expr.ofSource source' maxLength' maxDepth' = .ok e') :
    (render e = render e' ↔ e.shown = e'.shown) ∧
      (render e = render e' → e = e' ∨
        (infinite false ∈ e.numbers ++ e'.numbers ∧ "Infinity" ∈ e.names ++ e'.names)) := by
  have hnumbers := numbers_of_ofSource h
  have hnumbers' := numbers_of_ofSource h'
  have hshown : render e = render e' ↔ e.shown = e'.shown := by
    rw [render_eq_text, render_eq_text, ← text_shown, ← text_shown e']
    refine ⟨?_, congrArg text⟩
    exact (legible_shown hnumbers (leaves_of_ofSource h).2).eq_of_text_eq
      (legible_shown hnumbers' (leaves_of_ofSource h').2)
  refine ⟨hshown, fun htext => ?_⟩
  have hsame := hshown.1 htext
  by_cases hnames : "Infinity" ∈ e.names ++ e'.names
  · by_cases hinfinite : infinite false ∈ e.numbers ++ e'.numbers
    · exact .inr ⟨hinfinite, hnames⟩
    · rw [List.mem_append, not_or] at hinfinite
      rw [shown_eq_self hnumbers hinfinite.1, shown_eq_self hnumbers' hinfinite.2] at hsame
      exact .inl hsame
  · rw [List.mem_append, not_or] at hnames
    rw [← unshown_shown hnumbers hnames.1, ← unshown_shown hnumbers' hnames.2, hsame]
    exact .inl rfl

/-- Two spellings of a sum share their canonical text, in which the number has a power of ten. -/
theorem sum_render_eq_iff :
    Expr.ofSource "x + 20000000000000000" 30 1 =
        .ok (.binary .add (.ident "x") (.number (Decimal.toFloat false ⟨20000000000000000, 0⟩))) ∧
      Expr.ofSource "(x+20000000000000000.0)" 23 2 =
        .ok (.binary .add (.ident "x") (.number (Decimal.toFloat false ⟨200000000000000000, -1⟩))) ∧
      render (.binary .add (.ident "x") (.number (Decimal.toFloat false ⟨20000000000000000, 0⟩))) =
        render (.binary .add (.ident "x")
          (.number (Decimal.toFloat false ⟨200000000000000000, -1⟩))) := by
  have hsource : Expr.ofSource "x + 20000000000000000" 30 1 = .ok (.binary .add (.ident "x")
      (.number (Decimal.toFloat false ⟨20000000000000000, 0⟩))) := rfl
  have hsource' : Expr.ofSource "(x+20000000000000000.0)" 23 2 = .ok (.binary .add (.ident "x")
      (.number (Decimal.toFloat false ⟨200000000000000000, -1⟩))) := rfl
  have hpattern : Decimal.pattern ⟨20000000000000000, 0⟩ =
      Decimal.pattern ⟨200000000000000000, -1⟩ := by decide +kernel
  refine ⟨hsource, hsource', (render_eq_iff_shown_eq hsource hsource').1.2 ?_⟩
  rw [Decimal.toFloat, Decimal.toFloat, hpattern]

/-- A run of digits is the source of a literal. -/
theorem ofSource_of_isRun {text : List Char} (h : IsRun text) (hlength : text.length ≤ maxLength)
    (hpos : 1 ≤ maxDepth) (hle : maxDepth ≤ deepestLimit) :
    Expr.ofSource (String.ofList text) maxLength maxDepth =
      .ok (number ((ofRun text).toFloat false)) := by
  have hcut : Cut (String.ofList text).toList [⟨.number, text⟩] [] := by
    rw [String.toList_ofList]
    exact .piece (List.append_nil text).symm (front_number h follows_nil) (.done [])
  have hfaultless : ∀ p ∈ [(⟨.number, text⟩ : Token.Piece)], p.fault? = none := by
    simp [Piece.fault?, h.points]
  have htokens : tokensOf 0 [⟨.number, text⟩] =
      [⟨.number, .float ((ofRun text).toFloat false), (0 : Nat)⟩] := by
    simp [tokensOf, place, Placed.token?]
  obtain ⟨D, hneed⟩ : ∃ D : Derivation 7 (tokensOf 0 [⟨.number, text⟩])
      (number ((ofRun text).toFloat false)), D.need = 0 := by
    rw [htokens]
    exact ⟨.atom (.number _ _), rfl⟩
  obtain ⟨D', hneed'⟩ := D.exists_loosened (Nat.le_refl 1) (by decide) (Nat.le_refl 7)
  rw [ofSource_eq_ok_iff (by rwa [String.length_ofList]) hpos hle]
  exact ⟨_, hcut, hfaultless, D', by omega⟩

/-- The least power of ten beyond all doubles, with all its places. -/
def overflowingDigits : List Char := '1' :: List.replicate 309 '0'

/-- A literal beyond all doubles and a variable share their canonical text. They do not have the
same variables, and where the variable has no value they do not have the same outcome. -/
theorem overflowing_rendered_as_variable :
    Expr.ofSource (String.ofList overflowingDigits) 1000 100 = .ok (number (infinite false)) ∧
      Expr.ofSource "Infinity" 1000 100 = .ok (ident "Infinity") ∧
      number (infinite false) ≠ ident "Infinity" ∧
      render (number (infinite false)) = render (ident "Infinity") ∧
      (number (infinite false)).variableNames = [] ∧
      (ident "Infinity").variableNames = ["Infinity"] ∧
      (number (infinite false)).evaluate .empty = .ok (.number (infinite false)) ∧
      (ident "Infinity").evaluate .empty = reject (.undefinedVariable "Infinity") none := by
  have hdigits : ∀ c ∈ overflowingDigits, c.isDigit :=
    List.forall_mem_cons.2 ⟨by decide, isDigit_of_mem_zeros⟩
  have hrun : IsRun overflowingDigits := isRun_of_digits (List.cons_ne_nil _ _) hdigits
  have hlength : overflowingDigits.length = 310 := by
    rw [overflowingDigits, List.length_cons, List.length_replicate]
  have hpattern : (ofRun overflowingDigits).pattern = infinitePattern := by decide +kernel
  have hinfinite : (ofRun overflowingDigits).toFloat false = infinite false :=
    congrArg (ofPattern false) hpattern
  have hsource : Expr.ofSource (String.ofList overflowingDigits) 1000 100 =
      .ok (number (infinite false)) := by
    rw [← hinfinite]
    exact ofSource_of_isRun hrun (by rw [hlength]; decide) (by decide) (by decide)
  refine ⟨hsource, rfl, Expr.noConfusion, ?_, ?_, ?_, ?_, ?_⟩
  · rw [render_eq_text, render_eq_text]
    exact displayText_infinite
  · simp [variableNames, gather]
  · simp [variableNames, gather]
  · rw [evaluate, run_start]
    rfl
  · rw [evaluate, run_start]
    rfl

end Source

end Criterion.Expr
