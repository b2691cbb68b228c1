import Criterion.Token.Lexer
import Mathlib.Data.List.TakeWhile

/-!
# The longest pieces of a text

Which piece stands at the front of a text is said without a scanner: a run is as long as its class
of characters goes on, and an operator is one that no longer operator covers. At most one piece
stands at a front, hence every text has exactly one segmentation, which ends where no piece stands.
-/

namespace Criterion.Token

/-- The blanks between tokens. -/
def blanks : List Char := [' ', '\t', '\n', '\r', '\x0c', '\x0b']

/-- A text is the spelling of an operator. -/
def IsOperator (symbol : List Char) : Prop :=
  (∃ op : BinaryOp, op.symbol = String.ofList symbol) ∨
    ∃ op : UnaryOp, op.symbol = String.ofList symbol

/-- A run of characters of a class that ends with the text or before a character of no such
class. -/
def MaximalRun (inClass : Char → Bool) (run rest : List Char) : Prop :=
  (∀ c ∈ run, inClass c) ∧ ∀ c ∈ rest.head?, inClass c = false

/-- A piece stands at the front of a text when the given rest follows it. -/
inductive Front : Piece → List Char → Prop where
  | blank {c : Char} {rest : List Char} (h : c ∈ blanks) : Front ⟨.blank, [c]⟩ rest
  | number {c : Char} {run rest : List Char} (h : c.isDigit)
      (hrun : MaximalRun isNumberChar run rest) : Front ⟨.number, c :: run⟩ rest
  | word {c : Char} {run rest : List Char} (h : isWordStart c)
      (hrun : MaximalRun isWordChar run rest) : Front ⟨.word, c :: run⟩ rest
  | opening {rest : List Char} : Front ⟨.opening, ['(']⟩ rest
  | closing {rest : List Char} : Front ⟨.closing, [')']⟩ rest
  | operator {symbol rest : List Char} (h : IsOperator symbol)
      (hlongest : ∀ longer, IsOperator longer → longer <+: symbol ++ rest →
        longer.length ≤ symbol.length) : Front ⟨.operator, symbol⟩ rest

/-- No piece stands at the front of a text. -/
def Stuck (text : List Char) : Prop := ∀ piece rest, text = piece.text ++ rest → ¬ Front piece rest

/-- A text is cut into pieces, each of which stands at the front of what is left. -/
inductive Cut : List Char → List Piece → List Char → Prop where
  | done (text : List Char) : Cut text [] text
  | piece {text rest last : List Char} {piece : Piece} {pieces : List Piece}
      (htext : text = piece.text ++ rest) (hfront : Front piece rest)
      (hcut : Cut rest pieces last) : Cut text (piece :: pieces) last

/-- A cut that goes on as long as a piece stands at the front. -/
def Segmentation (text : List Char) (pieces : List Piece) (rest : List Char) : Prop :=
  Cut text pieces rest ∧ Stuck rest

variable {c : Char} {text rest run : List Char} {piece : Piece} {pieces : List Piece}
  {inClass : Char → Bool}

/-! ## Runs -/

/-- The characters of a class that a text begins with are a maximal run. -/
theorem maximalRun_takeWhile (inClass : Char → Bool) (text : List Char) :
    MaximalRun inClass (text.takeWhile inClass) (text.dropWhile inClass) := by
  refine ⟨fun c hc => List.mem_takeWhile_imp hc, ?_⟩
  intro c hc
  have hstop := List.head?_dropWhile_not inClass text
  rwa [Option.mem_def.1 hc] at hstop

/-- A maximal run is what the characters of its class come to. -/
theorem MaximalRun.takeWhile_eq (h : MaximalRun inClass run rest) :
    (run ++ rest).takeWhile inClass = run := by
  rw [List.takeWhile_append_of_pos h.1]
  cases rest with
  | nil => simp
  | cons d rest =>
      have hd : inClass d = false := h.2 d rfl
      simp [hd]

/-- A text begins with at most one maximal run of a class. -/
theorem MaximalRun.append_inj {run' rest' : List Char} (h : MaximalRun inClass run rest)
    (h' : MaximalRun inClass run' rest') (htext : run ++ rest = run' ++ rest') :
    run = run' ∧ rest = rest' := by
  have hrun := congrArg (List.takeWhile inClass) htext
  rw [h.takeWhile_eq, h'.takeWhile_eq] at hrun
  rw [hrun] at htext
  exact ⟨hrun, List.append_cancel_left htext⟩

/-! ## Classes of characters -/

theorem isTokenBlank_iff :
    Text.isTokenBlank c ↔ c.toNat = 32 ∨ (9 ≤ c.toNat ∧ c.toNat ≤ 13) := by
  simp [Text.isTokenBlank, ← Char.toNat_inj]

/-- The six blanks are all of them. -/
theorem mem_blanks_iff : c ∈ blanks ↔ Text.isTokenBlank c := by
  rw [isTokenBlank_iff]
  simp only [blanks, List.mem_cons, List.not_mem_nil, or_false, ← Char.toNat_inj]
  simp only [Char.reduceToNat]
  omega

/-- Words begin with a plain letter of either case or an underscore. -/
theorem isWordStart_iff : isWordStart c ↔
    (65 ≤ c.toNat ∧ c.toNat ≤ 90) ∨ (97 ≤ c.toNat ∧ c.toNat ≤ 122) ∨ c.toNat = 95 := by
  have halpha : c.isAlpha = (decide ('A'.val ≤ c.val ∧ c.val ≤ 'Z'.val) ||
      (decide ('a'.val ≤ c.val) && decide (c.val ≤ 'z'.val))) := rfl
  simp only [isWordStart, halpha, Bool.or_eq_true, Bool.and_eq_true, decide_eq_true_eq,
    UInt32.le_iff_toNat_le, beq_iff_eq, ← Char.toNat_inj, or_assoc]
  exact Iff.rfl

theorem isWordChar_of_isWordStart (h : isWordStart c) : isWordChar c := by
  rw [isWordStart, Bool.or_eq_true] at h
  rw [isWordChar, Char.isAlphanum, Bool.or_eq_true, Bool.or_eq_true]
  exact h.imp .inl id

private theorem not_isTokenBlank_of_isDigit (h : c.isDigit) : ¬ Text.isTokenBlank c := by
  have hrange : 48 ≤ c.toNat ∧ c.toNat ≤ 57 := Char.isDigit_iff_toNat.1 h
  rw [isTokenBlank_iff]
  omega

private theorem not_isTokenBlank_of_isWordStart (h : isWordStart c) : ¬ Text.isTokenBlank c := by
  rw [isTokenBlank_iff]
  rw [isWordStart_iff] at h
  omega

/-- The beginning of a word is no digit. -/
theorem not_isDigit_of_isWordStart (h : isWordStart c) : ¬ c.isDigit := by
  intro hdigit
  have hrange : 48 ≤ c.toNat ∧ c.toNat ≤ 57 := Char.isDigit_iff_toNat.1 hdigit
  rw [isWordStart_iff] at h
  omega

/-! ## Operators -/

private theorem operatorSymbols_sorted :
    (operatorSymbols.map String.toList).Pairwise fun longer symbol =>
      symbol.length ≤ longer.length := by
  decide

/-- The operators listed are those of the language. -/
theorem mem_operatorSymbols_iff {symbol : List Char} :
    symbol ∈ operatorSymbols.map String.toList ↔ IsOperator symbol := by
  have hlisted : ∀ s ∈ operatorSymbols,
      (BinaryOp.ofSymbol? s).isSome ∨ (UnaryOp.ofSymbol? s).isSome := by
    decide
  have hbinary (op : BinaryOp) : op.symbol ∈ operatorSymbols := by cases op <;> decide
  have hunary (op : UnaryOp) : op.symbol ∈ operatorSymbols := by cases op <;> decide
  constructor
  · intro h
    obtain ⟨s, hs, rfl⟩ := List.mem_map.1 h
    rw [IsOperator, String.ofList_toList]
    rcases hlisted s hs with hsome | hsome
    · obtain ⟨op, hop⟩ := Option.isSome_iff_exists.1 hsome
      exact .inl ⟨op, BinaryOp.symbol_of_ofSymbol? hop⟩
    · obtain ⟨op, hop⟩ := Option.isSome_iff_exists.1 hsome
      exact .inr ⟨op, UnaryOp.symbol_of_ofSymbol? hop⟩
  · intro h
    refine List.mem_map.2 ⟨String.ofList symbol, ?_, String.toList_ofList⟩
    rcases h with ⟨op, hop⟩ | ⟨op, hop⟩
    · exact hop ▸ hbinary op
    · exact hop ▸ hunary op

/-- The operator that is found is the longest one at the front. -/
theorem operatorAt?_eq_some {symbol : List Char} (h : operatorAt? text = some symbol) :
    IsOperator symbol ∧ symbol <+: text ∧
      ∀ longer, IsOperator longer → longer <+: text → longer.length ≤ symbol.length := by
  obtain ⟨hfront, before, after, hsplit, hbefore⟩ := List.find?_eq_some_iff_append.1 h
  have hmem : symbol ∈ operatorSymbols.map String.toList := by
    rw [hsplit]
    exact List.mem_append_right _ List.mem_cons_self
  refine ⟨mem_operatorSymbols_iff.1 hmem, List.isPrefixOf_iff_prefix.1 hfront, ?_⟩
  intro longer hlonger hlongerFront
  rw [← mem_operatorSymbols_iff, hsplit, List.mem_append, List.mem_cons] at hlonger
  -- What is listed before the operator does not fit, and what is listed after it is no longer.
  rcases hlonger with hlonger | rfl | hlonger
  · have hno := hbefore longer hlonger
    rw [List.isPrefixOf_iff_prefix.2 hlongerFront] at hno
    contradiction
  · exact Nat.le_refl _
  · have hsorted := operatorSymbols_sorted
    rw [hsplit, List.pairwise_append, List.pairwise_cons] at hsorted
    exact hsorted.2.1.1 longer hlonger

/-- The longest operator at the front is found. -/
theorem operatorAt?_of_longest {symbol : List Char} (h : IsOperator symbol)
    (hlongest : ∀ longer, IsOperator longer → longer <+: symbol ++ rest →
      longer.length ≤ symbol.length) :
    operatorAt? (symbol ++ rest) = some symbol := by
  have hfront : symbol <+: symbol ++ rest := List.prefix_append symbol rest
  cases hfind : operatorAt? (symbol ++ rest) with
  | none =>
      have hno := List.find?_eq_none.1 hfind symbol (mem_operatorSymbols_iff.2 h)
      rw [List.isPrefixOf_iff_prefix] at hno
      contradiction
  | some found =>
      obtain ⟨hfound, hfoundFront, hfoundLongest⟩ := operatorAt?_eq_some hfind
      have hlength : found.length = symbol.length :=
        Nat.le_antisymm (hlongest found hfound hfoundFront) (hfoundLongest symbol h hfront)
      have hle : found <+: symbol :=
        List.prefix_of_prefix_length_le hfoundFront hfront (Nat.le_of_eq hlength)
      rw [hle.eq_of_length hlength]

/-- Every operator has a first character, and no piece of another class begins with it. -/
theorem exists_operator_start {symbol : List Char} (h : IsOperator symbol) :
    ∃ c tail, symbol = c :: tail ∧ ¬ Text.isTokenBlank c ∧ ¬ c.isDigit ∧ ¬ isWordStart c ∧
      c ≠ '(' ∧ c ≠ ')' := by
  rcases h with ⟨op, hop⟩ | ⟨op, hop⟩
  · obtain rfl : op.symbol.toList = symbol := by rw [hop, String.toList_ofList]
    cases op <;> exact ⟨_, _, rfl, by decide⟩
  · obtain rfl : op.symbol.toList = symbol := by rw [hop, String.toList_ofList]
    cases op <;> exact ⟨_, _, rfl, by decide⟩

/-! ## The piece at the front -/

/-- A piece has at least one character. -/
theorem Front.text_ne_nil (h : Front piece rest) : piece.text ≠ [] := by
  cases h with
  | operator h _ =>
      obtain ⟨c, tail, rfl, _⟩ := exists_operator_start h
      exact List.cons_ne_nil c tail
  | _ => exact List.cons_ne_nil _ _

/-- A blank piece is one of the blanks. -/
theorem Front.exists_blank (h : Front piece rest) (hblank : piece.kind = .blank) :
    ∃ c ∈ blanks, piece.text = [c] := by
  cases h with
  | blank h => exact ⟨_, h, rfl⟩
  | _ => contradiction

/-- The piece that is found stands at the front. -/
theorem front_of_pieceAt? (h : pieceAt? c text = some piece) :
    ∃ rest, c :: text = piece.text ++ rest ∧ Front piece rest := by
  have htake (inClass : Char → Bool) :
      c :: text = (c :: text.takeWhile inClass) ++ text.dropWhile inClass := by
    rw [List.cons_append, List.takeWhile_append_dropWhile]
  unfold pieceAt? at h
  split at h
  case isTrue hblank =>
    cases h
    exact ⟨text, rfl, .blank (mem_blanks_iff.2 hblank)⟩
  split at h
  case isTrue hdigit =>
    cases h
    exact ⟨_, htake isNumberChar, .number hdigit (maximalRun_takeWhile isNumberChar text)⟩
  split at h
  case isTrue hword =>
    cases h
    exact ⟨_, htake isWordChar, .word hword (maximalRun_takeWhile isWordChar text)⟩
  split at h
  case isTrue hopening =>
    cases h
    exact ⟨text, by rw [hopening]; rfl, hopening ▸ .opening⟩
  split at h
  case isTrue hclosing =>
    cases h
    exact ⟨text, by rw [hclosing]; rfl, hclosing ▸ .closing⟩
  obtain ⟨symbol, hsymbol, rfl⟩ := Option.map_eq_some_iff.1 h
  obtain ⟨hmem, ⟨rest, hrest⟩, hlongest⟩ := operatorAt?_eq_some hsymbol
  rw [← hrest] at hlongest
  exact ⟨rest, hrest.symm, .operator hmem hlongest⟩

/-- The piece that stands at the front is found. -/
theorem Front.pieceAt?_eq (h : Front piece rest) (htext : c :: text = piece.text ++ rest) :
    pieceAt? c text = some piece := by
  cases h with
  | blank h =>
      cases htext
      simp only [pieceAt?, mem_blanks_iff.1 h, ite_true]
  | @number d run rest h hrun =>
      obtain ⟨rfl, rfl⟩ : c = d ∧ text = run ++ rest := List.cons.inj htext
      simp only [pieceAt?, if_neg (not_isTokenBlank_of_isDigit h), if_pos h, hrun.takeWhile_eq]
  | @word d run rest h hrun =>
      obtain ⟨rfl, rfl⟩ : c = d ∧ text = run ++ rest := List.cons.inj htext
      simp only [pieceAt?, if_neg (not_isTokenBlank_of_isWordStart h),
        if_neg (not_isDigit_of_isWordStart h), if_pos h, hrun.takeWhile_eq]
  | opening =>
      cases htext
      rfl
  | closing =>
      cases htext
      rfl
  | @operator symbol rest h hlongest =>
      have hfind := operatorAt?_of_longest h hlongest
      obtain ⟨d, tail, rfl, hblank, hdigit, hword, hopening, hclosing⟩ := exists_operator_start h
      obtain ⟨rfl, rfl⟩ : c = d ∧ text = tail ++ rest := List.cons.inj htext
      rw [List.cons_append] at hfind
      simp only [pieceAt?, if_neg hblank, if_neg hdigit, if_neg hword, if_neg hopening,
        if_neg hclosing, hfind, Option.map_some]

/-- No piece is found exactly where none stands. -/
theorem pieceAt?_eq_none_iff : pieceAt? c text = none ↔ Stuck (c :: text) := by
  constructor
  · intro h piece rest htext hfront
    rw [hfront.pieceAt?_eq htext] at h
    contradiction
  · intro hstuck
    cases h : pieceAt? c text with
    | none => rfl
    | some piece =>
      obtain ⟨rest, htext, hfront⟩ := front_of_pieceAt? h
      exact absurd hfront (hstuck piece rest htext)

/-- No two pieces stand at the front of one text. -/
theorem Front.unique {piece' : Piece} {rest' : List Char} (h : Front piece rest)
    (h' : Front piece' rest') (htext : piece.text ++ rest = piece'.text ++ rest') :
    piece = piece' ∧ rest = rest' := by
  obtain ⟨c, tail, hcons⟩ := List.exists_cons_of_ne_nil h.text_ne_nil
  have hfirst : c :: (tail ++ rest) = piece.text ++ rest := by
    rw [hcons, List.cons_append]
  have hfind := h.pieceAt?_eq hfirst
  rw [h'.pieceAt?_eq (hfirst.trans htext)] at hfind
  cases hfind
  exact ⟨rfl, List.append_cancel_left htext⟩

/-! ## The segmentation -/

/-- Every text has a segmentation. -/
theorem exists_segmentation (text : List Char) :
    ∃ pieces rest, Segmentation text pieces rest := by
  induction hlength : text.length using Nat.strongRecOn generalizing text with
  | _ n ih =>
    by_cases hstuck : Stuck text
    · exact ⟨[], text, .done text, hstuck⟩
    · simp only [Stuck, Classical.not_forall, Classical.not_not] at hstuck
      obtain ⟨piece, rest, htext, hfront⟩ := hstuck
      have hshorter : rest.length < n := by
        have hpos := List.length_pos_iff.2 hfront.text_ne_nil
        rw [← hlength, htext, List.length_append]
        omega
      obtain ⟨pieces, last, hcut, hlast⟩ := ih rest.length hshorter rest rfl
      exact ⟨piece :: pieces, last, .piece htext hfront hcut, hlast⟩

/-- No text has two segmentations. -/
theorem Segmentation.unique {pieces' : List Piece} {rest' : List Char}
    (h : Segmentation text pieces rest) (h' : Segmentation text pieces' rest') :
    pieces' = pieces ∧ rest' = rest := by
  obtain ⟨hcut, hstuck⟩ := h
  obtain ⟨hcut', hstuck'⟩ := h'
  induction hcut generalizing pieces' with
  | done text =>
      cases hcut' with
      | done => exact ⟨rfl, rfl⟩
      | piece htext hfront _ => exact absurd hfront (hstuck _ _ htext)
  | piece htext hfront _ ih =>
      cases hcut' with
      | done => exact absurd hfront (hstuck' _ _ htext)
      | piece htext' hfront' hcut' =>
        obtain ⟨rfl, rfl⟩ := hfront.unique hfront' (htext.symm.trans htext')
        obtain ⟨rfl, rfl⟩ := ih hstuck hcut'
        exact ⟨rfl, rfl⟩

end Criterion.Token
