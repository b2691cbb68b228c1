import Criterion.Proofs.Binary64.PlainText
import Criterion.Proofs.Expr.Leaves
import Criterion.Proofs.Expr.Printing

/-!
# The pieces of a canonical text

The canonical text of a tree is cut into the pieces that it was written from: no two of them run
into each other. A number or a word is followed by a blank, by a closing parenthesis or by the end;
a binary operator is followed by a blank; and behind a prefix operator there never stands the only
character that would make a longer operator of it.
-/

namespace Criterion.Expr

open Token Binary64

variable {e : Expr} {text rest : List Char}

/-- The leaves of a tree can be written so that they are read back: the numbers are plain and not
negative, and the names are names that a source can have. -/
def Readable : Expr → Prop
  | number x => IsPlain x ∧ isNegative x = false
  | boolean _ => True
  | ident name => IsName name
  | unary _ operand => operand.Readable
  | binary _ left right => left.Readable ∧ right.Readable

/-- Readable leaves make a readable tree. -/
theorem readable_of_leaves (hplain : ∀ x ∈ e.numbers, IsPlain x)
    (hsign : ∀ x ∈ e.numbers, isNegative x = false) (hnames : ∀ name ∈ e.names, IsName name) :
    e.Readable := by
  induction e with
  | number x => exact ⟨hplain x (by simp [numbers]), hsign x (by simp [numbers])⟩
  | boolean b => trivial
  | ident name => exact hnames name (by simp)
  | unary op operand ih => exact ih hplain hsign hnames
  | binary op left right ihl ihr =>
      rw [numbers, List.forall_mem_append] at hplain hsign
      rw [names_binary, List.forall_mem_append] at hnames
      exact ⟨ihl hplain.1 hsign.1 hnames.1, ihr hplain.2 hsign.2 hnames.2⟩

/-- The pieces that the canonical text of a tree consists of. -/
def lexemes : Expr → List Token.Piece
  | number x => [⟨.number, (displayText x).toList⟩]
  | boolean b => [⟨.word, (truthText b).toList⟩]
  | ident name => [⟨.word, name.toList⟩]
  | unary op operand => ⟨.operator, op.symbol.toList⟩ :: operand.lexemes
  | binary op left right =>
    ⟨.opening, ['(']⟩ :: (left.lexemes ++ ⟨.blank, [' ']⟩ :: ⟨.operator, op.symbol.toList⟩ ::
      ⟨.blank, [' ']⟩ :: (right.lexemes ++ [⟨.closing, [')']⟩]))

/-- The characters of a canonical text are those of its pieces. -/
theorem toList_text (e : Expr) : e.text.toList = e.lexemes.flatMap Token.Piece.text := by
  induction e with
  | number x => simp [Expr.text, lexemes]
  | boolean b => simp [Expr.text, lexemes]
  | ident name => simp [Expr.text, lexemes]
  | unary op operand ih => simp [Expr.text, lexemes, ih]
  | binary op left right ihl ihr => simp [Expr.text, lexemes, ihl, ihr]

/-! ## What follows a piece -/

/-- What can follow a tree in a canonical text: nothing, a blank or a closing parenthesis. -/
def Follows (rest : List Char) : Prop := ∀ c ∈ rest.head?, c = ' ' ∨ c = ')'

theorem follows_nil : Follows [] := fun c hc => by contradiction

theorem follows_blank (rest : List Char) : Follows (' ' :: rest) :=
  fun _ hc => .inl (Option.some.inj hc).symm

theorem follows_closing (rest : List Char) : Follows (')' :: rest) :=
  fun _ hc => .inr (Option.some.inj hc).symm

/-- A run stands at the front where nothing follows that would belong to it. -/
theorem front_number (h : Decimal.IsRun text) (hrest : Follows rest) :
    Front ⟨.number, text⟩ rest := by
  obtain ⟨c, run, rfl, hc⟩ := h.starts
  refine .number hc ⟨fun d hd => ?_, fun d hd => ?_⟩
  · rcases h.chars d (List.mem_cons_of_mem _ hd) with hdigit | rfl
    · rw [isNumberChar, hdigit, Bool.true_or]
    · rfl
  · rcases hrest d hd with rfl | rfl <;> decide

/-- A word stands at the front where nothing follows that would belong to it. -/
theorem front_word {c : Char} {run : List Char} (hc : isWordStart c)
    (hrun : ∀ d ∈ run, isWordChar d) (hrest : Follows rest) : Front ⟨.word, c :: run⟩ rest := by
  refine .word hc ⟨hrun, fun d hd => ?_⟩
  rcases hrest d hd with rfl | rfl <;> decide

/-- An operator stands at the front where the next character does not make it longer. -/
theorem front_operator {symbol : List Char} (h : IsOperator symbol)
    (hno : ∀ c ∈ rest.head?, ∀ longer, IsOperator longer → ¬ symbol ++ [c] <+: longer) :
    Front ⟨.operator, symbol⟩ rest := by
  refine .operator h fun longer hlonger hfront => Nat.le_of_not_lt fun hlt => ?_
  cases rest with
  | nil =>
      have hle := hfront.length_le
      rw [List.append_nil] at hle
      omega
  | cons c rest =>
      have hshort : symbol ++ [c] <+: symbol ++ c :: rest := by
        rw [List.append_cons symbol c rest]
        exact List.prefix_append _ rest
      have hlength : (symbol ++ [c]).length ≤ longer.length := by
        rw [List.length_append, List.length_singleton]
        exact hlt
      exact hno c rfl longer hlonger (List.prefix_of_prefix_length_le hshort hfront hlength)

/-- A binary operator stands before a blank. -/
theorem front_binary (op : BinaryOp) (rest : List Char) :
    Front ⟨.operator, op.symbol.toList⟩ (' ' :: rest) := by
  refine front_operator (.inl ⟨op, String.ofList_toList.symm⟩) ?_
  intro c hc longer hlonger hprefix
  obtain rfl : ' ' = c := Option.some.inj hc
  have hblank : ∀ symbol ∈ operatorSymbols.map String.toList, ' ' ∉ symbol := by decide
  refine hblank longer (mem_operatorSymbols_iff.2 hlonger) ?_
  exact hprefix.subset (List.mem_append_right _ List.mem_cons_self)

/-- A prefix operator stands before everything but an equals sign. -/
theorem front_unary (op : UnaryOp) (hrest : ∀ c ∈ rest.head?, c ≠ '=') :
    Front ⟨.operator, op.symbol.toList⟩ rest := by
  refine front_operator (.inr ⟨op, String.ofList_toList.symm⟩) ?_
  intro c hc longer hlonger hprefix
  have hnext : ∀ symbol ∈ operatorSymbols.map String.toList,
      symbol.head? = op.symbol.toList.head? → symbol[1]? = none ∨ symbol[1]? = some '=' := by
    cases op <;> decide
  obtain ⟨d, hsymbol⟩ : ∃ d, op.symbol.toList = [d] := by cases op <;> exact ⟨_, rfl⟩
  obtain ⟨tail, rfl⟩ := hprefix
  rw [hsymbol] at hlonger hnext
  rcases hnext _ (mem_operatorSymbols_iff.2 hlonger) rfl with hnone | hequals
  · contradiction
  · exact hrest c hc (Option.some.inj hequals)

/-! ## The cut -/

/-- The text of a readable tree has a first character, which is no equals sign. -/
theorem Readable.exists_first (h : e.Readable) :
    ∃ c tail, e.lexemes.flatMap Token.Piece.text = c :: tail ∧ c ≠ '=' := by
  cases e with
  | number x =>
      obtain ⟨text, htext, hrun, _⟩ := exists_run_displayText h.1 h.2
      obtain ⟨c, run, rfl, hc⟩ := hrun.starts
      refine ⟨c, run, ?_, ?_⟩
      · simp [lexemes, htext]
      · rintro rfl
        contradiction
  | boolean b => cases b <;> exact ⟨_, _, rfl, by decide⟩
  | ident name =>
      obtain ⟨c, run, rfl, hc, _⟩ := h.word
      refine ⟨c, run, ?_, ?_⟩
      · simp [lexemes]
      · rintro rfl
        contradiction
  | unary op operand => cases op <;> exact ⟨_, _, rfl, by decide⟩
  | binary op left right => exact ⟨_, _, rfl, by decide⟩

/-- The words for the truth values are words. -/
theorem exists_word_truthText (b : Bool) : ∃ c run, (truthText b).toList = c :: run ∧
    isWordStart c ∧ ∀ d ∈ run, isWordChar d := by
  cases b with
  | false => exact ⟨'f', ['a', 'l', 's', 'e'], rfl, by decide, List.all_eq_true.1 rfl⟩
  | true => exact ⟨'t', ['r', 'u', 'e'], rfl, by decide, List.all_eq_true.1 rfl⟩

/-- The canonical text of a readable tree is cut into its pieces, whatever can follow it. -/
theorem Readable.cut (h : e.Readable) (hrest : Follows rest) :
    Cut (e.lexemes.flatMap Token.Piece.text ++ rest) e.lexemes rest := by
  induction e generalizing rest with
  | number x =>
      obtain ⟨text, htext, hrun, _⟩ := exists_run_displayText h.1 h.2
      simp only [lexemes, List.flatMap_cons, List.flatMap_nil, List.append_nil, htext,
        String.toList_ofList]
      exact .piece rfl (front_number hrun hrest) (.done rest)
  | boolean b =>
      obtain ⟨c, run, htext, hc, hrun⟩ := exists_word_truthText b
      simp only [lexemes, List.flatMap_cons, List.flatMap_nil, List.append_nil, htext]
      exact .piece rfl (front_word hc hrun hrest) (.done rest)
  | ident name =>
      obtain ⟨c, run, rfl, hc, hrun⟩ := h.word
      simp only [lexemes, List.flatMap_cons, List.flatMap_nil, List.append_nil,
        String.toList_ofList]
      exact .piece rfl (front_word hc hrun hrest) (.done rest)
  | unary op operand ih =>
      have hoperand : operand.Readable := h
      obtain ⟨c, tail, hfirst, hc⟩ := hoperand.exists_first
      simp only [lexemes, List.flatMap_cons, List.append_assoc]
      refine .piece rfl (front_unary op ?_) (ih h hrest)
      rw [hfirst]
      intro d hd
      obtain rfl : c = d := Option.some.inj hd
      exact hc
  | binary op left right ihl ihr =>
      simp only [lexemes, List.flatMap_cons, List.flatMap_append, List.flatMap_nil,
        List.append_nil, List.append_assoc]
      refine .piece rfl .opening ((ihl h.1 (follows_blank _)).append ?_)
      refine .piece rfl (.blank (by decide)) ?_
      refine .piece rfl (front_binary op _) ?_
      refine .piece rfl (.blank (by decide)) ?_
      refine (ihr h.2 (follows_closing rest)).append ?_
      exact .piece rfl .closing (.done rest)

end Criterion.Expr
