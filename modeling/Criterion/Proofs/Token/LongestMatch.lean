import Criterion.Proofs.Decimal.Run
import Criterion.Proofs.Token.Placement

/-!
# What the lexer makes of a text

The lexer goes through the segmentation of a text. A piece without a fault becomes its token, the
first fault ends the walk, and so does a character at which no piece stands. Positions are counted
from the pieces before, hence the tokens of a text stand in the order in which they are written.
-/

namespace Criterion.Token

/-- What is wrong with a piece, if anything: a number with two points or a reserved word. -/
def Piece.fault? (piece : Piece) : Option Cause :=
  let text := String.ofList piece.text
  match piece.kind with
  | .number => if piece.text.count '.' ≤ 1 then none else some (.invalidNumber text)
  | .word => if text ∈ reservedNames then some (.blockedIdentifier text) else none
  | _ => none

/-- The token that a placed piece stands for; a blank stands for none. -/
def Placed.token? (q : Placed) : Option Token :=
  let text := String.ofList q.piece.text
  match q.piece.kind with
  | .blank => none
  | .number => some ⟨.number, .float ((Decimal.ofRun q.piece.text).toFloat false), q.pos⟩
  | .word =>
    if text = "true" then some ⟨.boolean, .boolean true, q.pos⟩
    else if text = "false" then some ⟨.boolean, .boolean false, q.pos⟩
    else some ⟨.ident, .text text, q.pos⟩
  | .opening => some ⟨.opening, .text text, q.pos⟩
  | .closing => some ⟨.closing, .text text, q.pos⟩
  | .operator => some ⟨.operator, .text text, q.pos⟩

/-- The tokens of pieces that lie one after another from a position on. -/
def tokensOf (pos : Nat) (pieces : List Piece) : List Token :=
  (place pos pieces).filterMap Placed.token?

/-- The failure that the leftmost offence of a segmentation calls for. Every piece before it is
without fault. -/
inductive Offence (pieces : List Piece) (rest : List Char) : Failure → Prop where
  | fault {before after : List Piece} {piece : Piece} {cause : Cause}
      (hpieces : pieces = before ++ piece :: after) (hbefore : ∀ p ∈ before, p.fault? = none)
      (hfault : piece.fault? = some cause) :
      Offence pieces rest (.rejected ⟨cause, some (extent before)⟩)
  | character {c : Char} {tail : List Char} (hpieces : ∀ p ∈ pieces, p.fault? = none)
      (hrest : rest = c :: tail) :
      Offence pieces rest (.rejected ⟨.unexpectedCharacter c.toString, some (extent pieces)⟩)

variable {text rest : List Char} {piece : Piece} {pieces before after : List Piece}
  {done : List Token} {pos : Nat} {c : Char}

/-! ## One piece -/

/-- A piece that stands at a front has its token, or its fault is reported where it stands. -/
theorem ofPiece_eq (hfront : Front piece rest) (pos : Nat) :
    ofPiece piece pos =
      match piece.fault? with
      | some cause => reject cause (some pos)
      | none => .ok (Placed.token? ⟨pos, piece⟩) := by
  cases hfront with
  | @number c run rest h hrun =>
      have hchars : ∀ d ∈ run, d.isDigit ∨ d = '.' := by
        intro d hd
        simpa [isNumberChar] using hrun.1 d hd
      simp only [ofPiece, Piece.fault?, Placed.token?, Numeral.readFloat?_run h hchars]
      by_cases hcount : (c :: run).count '.' ≤ 1
      · simp only [if_pos hcount]
      · simp only [if_neg hcount]
  | @word c run rest h hrun =>
      simp only [ofPiece, ofWord, Piece.fault?, Placed.token?, isReserved, List.contains_iff_mem]
      by_cases hreserved : String.ofList (c :: run) ∈ reservedNames
      · simp only [if_pos hreserved]
        rfl
      · simp only [if_neg hreserved]
        split
        · rfl
        · split <;> rfl
  | _ => rfl

/-- What a token that a piece stands for looks like: it holds a datum of the type that its kind asks
for. -/
inductive Lexeme (pos : Int) : Token → Prop where
  | number (x : Float) : Lexeme pos ⟨.number, .float x, pos⟩
  | boolean (b : Bool) : Lexeme pos ⟨.boolean, .boolean b, pos⟩
  | ident (name : String) : Lexeme pos ⟨.ident, .text name, pos⟩
  | opening (s : String) : Lexeme pos ⟨.opening, .text s, pos⟩
  | closing (s : String) : Lexeme pos ⟨.closing, .text s, pos⟩
  | operator (symbol : String) : Lexeme pos ⟨.operator, .text symbol, pos⟩

/-- A piece stands for a token of one of these shapes, at the position where it begins. -/
theorem lexeme_of_token? {q : Placed} {t : Token} (h : q.token? = some t) : Lexeme q.pos t := by
  obtain ⟨pos, kind, chars⟩ := q
  cases kind with
  | blank => contradiction
  | word =>
      simp only [Placed.token?] at h
      split at h
      · cases h
        exact .boolean true
      · split at h <;> cases h
        · exact .boolean false
        · exact .ident _
  | number =>
      cases h
      exact .number _
  | opening =>
      cases h
      exact .opening _
  | closing =>
      cases h
      exact .closing _
  | operator =>
      cases h
      exact .operator _

theorem Lexeme.pos_eq {pos : Int} {t : Token} (h : Lexeme pos t) : t.pos = pos := by
  cases h <;> rfl

/-! ## The walk -/

private theorem scan_append (run rest : List Char) (pos : Nat) (done : List Token) :
    scan run.length pos done (run ++ rest) = scan 0 (pos + run.length) done rest := by
  induction run generalizing pos with
  | nil => rfl
  | cons c run ih =>
      rw [List.cons_append, List.length_cons, scan, ih]
      congr 1
      omega

/-- The walk goes over a piece that stands at the front, or ends with its fault. -/
theorem scan_front (hfront : Front piece rest) (pos : Nat) (done : List Token) :
    scan 0 pos done (piece.text ++ rest) =
      match piece.fault? with
      | some cause => reject cause (some pos)
      | none =>
        scan 0 (pos + piece.text.length) ((Placed.token? ⟨pos, piece⟩).toList ++ done) rest := by
  obtain ⟨c, tail, hcons⟩ := List.exists_cons_of_ne_nil hfront.text_ne_nil
  have hpiece : pieceAt? c (tail ++ rest) = some piece := by
    apply hfront.pieceAt?_eq
    rw [hcons, List.cons_append]
  have hlength : piece.text.length - 1 = tail.length := by
    rw [hcons, List.length_cons, Nat.add_sub_cancel]
  have hpos : pos + 1 + tail.length = pos + piece.text.length := by
    rw [hcons, List.length_cons]
    omega
  have htext : piece.text ++ rest = c :: (tail ++ rest) := by
    rw [hcons, List.cons_append]
  rw [htext]
  simp only [scan, hpiece, ofPiece_eq hfront pos]
  cases piece.fault? with
  | some cause => rfl
  | none =>
      simp only [hlength, scan_append, hpos]

/-- The walk ends at a character at which no piece stands. -/
theorem scan_stuck (hstuck : Stuck (c :: rest)) (pos : Nat) (done : List Token) :
    scan 0 pos done (c :: rest) = reject (.unexpectedCharacter c.toString) (some pos) := by
  simp only [scan, pieceAt?_eq_none_iff.2 hstuck]

/-- The first piece has its token before those of the others. -/
theorem tokensOf_cons (pos : Nat) (piece : Piece) (pieces : List Piece) :
    tokensOf pos (piece :: pieces) =
      (Placed.token? ⟨pos, piece⟩).toList ++ tokensOf (pos + piece.text.length) pieces := by
  simp only [tokensOf, place, List.filterMap_cons]
  cases Placed.token? ⟨pos, piece⟩ <;> rfl

/-- The tokens of some pieces come before those of the pieces behind them. -/
theorem tokensOf_append (pos : Nat) (before after : List Piece) :
    tokensOf pos (before ++ after) =
      tokensOf pos before ++ tokensOf (pos + extent before) after := by
  induction before generalizing pos with
  | nil => rfl
  | cons piece before ih =>
      rw [List.cons_append, tokensOf_cons, ih, tokensOf_cons, extent_cons, List.append_assoc,
        Nat.add_assoc]

/-- The walk goes over pieces without fault and has their tokens. -/
theorem Cut.scan_eq (hcut : Cut text pieces rest) (hpieces : ∀ p ∈ pieces, p.fault? = none)
    (pos : Nat) (done : List Token) :
    scan 0 pos done text =
      scan 0 (pos + extent pieces) ((tokensOf pos pieces).reverse ++ done) rest := by
  induction hcut generalizing pos done with
  | done => rfl
  | @piece text tail _ piece pieces htext hfront _ ih =>
      obtain ⟨hpiece, hpieces⟩ := List.forall_mem_cons.1 hpieces
      have hone : (Placed.token? ⟨pos, piece⟩).toList.reverse =
          (Placed.token? ⟨pos, piece⟩).toList := by
        cases Placed.token? ⟨pos, piece⟩ <;> rfl
      rw [htext, scan_front hfront, hpiece]
      simp only
      -- The walk keeps its tokens in reverse, where the new one is the first.
      rw [ih hpieces, tokensOf_cons, extent_cons, List.reverse_append, hone, List.append_assoc,
        Nat.add_assoc]

/-- The walk ends with the first fault. -/
theorem Cut.scan_fault {cause : Cause} (hcut : Cut text (before ++ piece :: after) rest)
    (hbefore : ∀ p ∈ before, p.fault? = none) (hfault : piece.fault? = some cause) (pos : Nat)
    (done : List Token) :
    scan 0 pos done text = reject cause (some ((pos + extent before : Nat) : Int)) := by
  obtain ⟨middle, hfirst, hsecond⟩ := hcut.split
  rw [hfirst.scan_eq hbefore]
  cases hsecond with
  | piece htext hfront _ =>
      rw [htext, scan_front hfront, hfault]

/-! ## The outcome -/

/-- Some pieces are all without fault, or one of them is the first that has one. -/
theorem faultless_or_first_fault (pieces : List Piece) :
    (∀ p ∈ pieces, p.fault? = none) ∨
      ∃ before piece after cause, pieces = before ++ piece :: after ∧
        (∀ p ∈ before, p.fault? = none) ∧ piece.fault? = some cause := by
  induction pieces with
  | nil => exact .inl (fun p hp => by contradiction)
  | cons piece pieces ih =>
      cases hpiece : piece.fault? with
      | some cause =>
        exact .inr ⟨[], piece, pieces, cause, rfl, fun p hp => by contradiction, hpiece⟩
      | none =>
        rcases ih with hpieces | ⟨before, q, after, cause, rfl, hbefore, hq⟩
        · exact .inl (List.forall_mem_cons.2 ⟨hpiece, hpieces⟩)
        · exact .inr ⟨piece :: before, q, after, cause, rfl,
            List.forall_mem_cons.2 ⟨hpiece, hbefore⟩, hq⟩

/-- A segmentation reaches the end without fault or has an offence. -/
theorem faultless_or_offence (pieces : List Piece) (rest : List Char) :
    (rest = [] ∧ ∀ p ∈ pieces, p.fault? = none) ∨ ∃ failure, Offence pieces rest failure := by
  rcases faultless_or_first_fault pieces with
    hpieces | ⟨before, piece, after, cause, hsplit, hbefore, hfault⟩
  · cases rest with
    | nil => exact .inl ⟨rfl, hpieces⟩
    | cons c tail => exact .inr ⟨_, .character hpieces rfl⟩
  · exact .inr ⟨_, .fault hsplit hbefore hfault⟩

/-- The pieces of a cut that reaches the end have all characters of the text. -/
theorem Cut.length_eq (hcut : Cut text pieces []) : text.length = extent pieces := by
  rw [hcut.text_eq, List.append_nil, extent]

section Source

variable {source : String} {maxLength : Int} {tokens : List Token} {failure : Failure}

theorem ofSource_eq_scan (h : source.length ≤ maxLength) :
    ofSource source maxLength = scan 0 0 [] source.toList := if_neg (by omega)

/-- A source that has tokens is within the limit of length. -/
theorem length_le_of_ofSource (h : ofSource source maxLength = .ok tokens) :
    source.length ≤ maxLength := by
  refine Int.not_lt.1 fun hlong => ?_
  rw [ofSource, if_pos hlong] at h
  contradiction

/-- A segmentation that reaches the end without fault gives the tokens of its pieces. -/
theorem ofSource_of_faultless (h : source.length ≤ maxLength)
    (hcut : Cut source.toList pieces []) (hpieces : ∀ p ∈ pieces, p.fault? = none) :
    ofSource source maxLength =
      .ok (tokensOf 0 pieces ++ [⟨.eof, .text "", source.length⟩]) := by
  have hlength := hcut.length_eq
  rw [String.length_toList] at hlength
  rw [ofSource_eq_scan h, hcut.scan_eq hpieces, scan, List.append_nil, List.reverse_reverse,
    Nat.zero_add, hlength]

/-- A segmentation with an offence gives its failure. -/
theorem ofSource_of_offence (h : source.length ≤ maxLength)
    (hseg : Segmentation source.toList pieces rest) (hoffence : Offence pieces rest failure) :
    ofSource source maxLength = .error failure := by
  obtain ⟨hcut, hstuck⟩ := hseg
  rw [ofSource_eq_scan h]
  cases hoffence with
  | fault hpieces hbefore hfault =>
      subst hpieces
      rw [hcut.scan_fault hbefore hfault, Nat.zero_add]
      rfl
  | character hpieces hrest =>
      subst hrest
      rw [hcut.scan_eq hpieces, scan_stuck hstuck, Nat.zero_add]
      rfl

/-- The lexer succeeds exactly on a segmentation that reaches the end without fault. -/
theorem ofSource_eq_ok_iff (h : source.length ≤ maxLength)
    (hseg : Segmentation source.toList pieces rest) :
    ofSource source maxLength = .ok tokens ↔
      rest = [] ∧ (∀ p ∈ pieces, p.fault? = none) ∧
        tokens = tokensOf 0 pieces ++ [⟨.eof, .text "", source.length⟩] := by
  constructor
  · intro htokens
    rcases faultless_or_offence pieces rest with ⟨rfl, hpieces⟩ | ⟨failure, hoffence⟩
    · rw [ofSource_of_faultless h hseg.1 hpieces] at htokens
      cases htokens
      exact ⟨rfl, hpieces, rfl⟩
    · rw [ofSource_of_offence h hseg hoffence] at htokens
      contradiction
  · rintro ⟨rfl, hpieces, rfl⟩
    exact ofSource_of_faultless h hseg.1 hpieces

/-- The lexer fails exactly with the failure of the leftmost offence. -/
theorem ofSource_eq_error_iff (h : source.length ≤ maxLength)
    (hseg : Segmentation source.toList pieces rest) :
    ofSource source maxLength = .error failure ↔ Offence pieces rest failure := by
  constructor
  · intro hfailure
    rcases faultless_or_offence pieces rest with ⟨rfl, hpieces⟩ | ⟨failure', hoffence⟩
    · rw [ofSource_of_faultless h hseg.1 hpieces] at hfailure
      contradiction
    · rw [ofSource_of_offence h hseg hoffence] at hfailure
      cases hfailure
      exact hoffence
  · exact ofSource_of_offence h hseg

/-- The tokens of a source stand in the order of their positions. -/
theorem tokensOf_increasing (hcut : Cut source.toList pieces []) :
    List.Pairwise (fun t u : Token => t.pos < u.pos)
      (tokensOf 0 pieces ++ [⟨.eof, .text "", source.length⟩]) := by
  rw [List.pairwise_append]
  refine ⟨?_, List.pairwise_singleton _ _, ?_⟩
  · rw [tokensOf, List.pairwise_filterMap]
    refine (place_apart 0 pieces).imp_of_mem ?_
    intro q r hq _ hstop t ht u hu
    have hlt := hcut.pos_lt_stop hq
    rw [(lexeme_of_token? ht).pos_eq, (lexeme_of_token? hu).pos_eq]
    omega
  · intro t ht u hu
    obtain ⟨q, hq, hqt⟩ := List.mem_filterMap.1 ht
    have hlength := hcut.length_eq
    rw [String.length_toList] at hlength
    have hlt := hcut.pos_lt_stop hq
    have hstop := stop_le_of_mem_place hq
    rw [(lexeme_of_token? hqt).pos_eq, List.mem_singleton.1 hu]
    simp only
    omega

/-- Within the limit of length the lexer goes by the one segmentation of the source. It succeeds
exactly if that reaches the end without fault, with the tokens of the pieces in their order, and
otherwise fails for the leftmost offence. -/
theorem ofSource_longest_match (h : source.length ≤ maxLength) :
    ∃ pieces rest, Segmentation source.toList pieces rest ∧
      (∀ pieces' rest', Segmentation source.toList pieces' rest' →
        pieces' = pieces ∧ rest' = rest) ∧
      Layout source.toList pieces rest ∧
      (∀ tokens, ofSource source maxLength = .ok tokens ↔
        rest = [] ∧ (∀ p ∈ pieces, p.fault? = none) ∧
          tokens = tokensOf 0 pieces ++ [⟨.eof, .text "", source.length⟩]) ∧
      (∀ tokens, ofSource source maxLength = .ok tokens →
        tokens.Pairwise fun t u => t.pos < u.pos) ∧
      (∀ failure, ofSource source maxLength = .error failure ↔ Offence pieces rest failure) := by
  obtain ⟨pieces, rest, hseg⟩ := exists_segmentation source.toList
  refine ⟨pieces, rest, hseg, fun _ _ => hseg.unique, hseg.1.layout,
    fun _ => ofSource_eq_ok_iff h hseg, ?_, fun _ => ofSource_eq_error_iff h hseg⟩
  intro tokens htokens
  obtain ⟨rfl, _, rfl⟩ := (ofSource_eq_ok_iff h hseg).1 htokens
  exact tokensOf_increasing hseg.1

/-- The longest operator stands between two words, and the tokens keep their places. -/
theorem comparison_longest_match :
    (("a <= b" : String).length : Int) ≤ 6 ∧
      ∃ pieces, Segmentation "a <= b".toList pieces [] ∧
        tokensOf 0 pieces ++ [⟨.eof, .text "", 6⟩] =
          [⟨.ident, .text "a", 0⟩, ⟨.operator, .text "<=", 2⟩, ⟨.ident, .text "b", 5⟩,
            ⟨.eof, .text "", 6⟩] := by
  have hle : (("a <= b" : String).length : Int) ≤ 6 := by decide
  obtain ⟨pieces, rest, hseg, _, _, hok, _, _⟩ := ofSource_longest_match hle
  obtain ⟨rfl, _, htokens⟩ := (hok _).1 rfl
  exact ⟨hle, pieces, hseg, htokens.symm⟩

end Source

end Criterion.Token
