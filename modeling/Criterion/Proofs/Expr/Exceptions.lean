import Criterion.Proofs.Binary64.Guard
import Criterion.Proofs.Expr.Climbing
import Criterion.Proofs.Expr.Semantics
import Criterion.Proofs.Token.LongestMatch

/-!
# Where exceptions could leave

A host reads numerals that may be malformed, looks tokens up by their index, takes operands off a
stack that may be empty, finds operators in tables that may lack them, and refuses to divide by
zero. Below each of these is done in such a way that it can fail, and on the way of an expression
none of them does.
-/

namespace Criterion

namespace Token

/-! ## Numerals -/

variable {piece : Piece} {pieces : List Piece} {text rest : List Char}

/-- Each piece of a cut stands at a front. -/
theorem Cut.exists_front (hcut : Cut text pieces rest) (hpiece : piece ∈ pieces) :
    ∃ after, Front piece after := by
  induction hcut with
  | done => contradiction
  | piece _ hfront _ ih =>
    rcases List.mem_cons.1 hpiece with rfl | hpiece
    · exact ⟨_, hfront⟩
    · exact ih hpiece

/-- A number without fault is read. -/
theorem Front.exists_float (hfront : Front piece rest) (hkind : piece.kind = .number)
    (hfault : piece.fault? = none) : ∃ x, Numeral.readFloat? piece.text = some x := by
  have hpiece := ofPiece_eq hfront 0
  rw [hfault, ofPiece, hkind] at hpiece
  cases hread : Numeral.readFloat? piece.text with
  | some x => exact ⟨x, rfl⟩
  | none =>
    simp only [hread] at hpiece
    contradiction

end Token

/-! ## Operators -/

/-- The operators that yield numbers, with what a host computes for them. -/
def BinaryOp.arithmetic : List (BinaryOp × (Float → Float → Option Float)) :=
  [(.add, fun a b => some (a + b)), (.subtract, fun a b => some (a - b)),
    (.multiply, fun a b => some (a * b)), (.divide, Binary64.guardedQuotient?),
    (.remainder, Binary64.guardedRemainder?)]

/-- The operators that compare by order, with their relations. -/
def BinaryOp.ordering : List (BinaryOp × (Float → Float → Bool)) :=
  [(.less, fun a b => a < b), (.greater, fun a b => a > b), (.atMost, fun a b => a ≤ b),
    (.atLeast, fun a b => a ≥ b)]

/-- Apply a binary operator as a host does. An operator that it does not know, or operands that it
does not divide, have no result. -/
def BinaryOp.attempt (op : BinaryOp) (v w : Value) : Option Value :=
  match arithmetic.lookup op, ordering.lookup op with
  | some f, _ => (f v.toNumber w.toNumber).map .number
  | none, some r => some (.boolean (r v.toNumber w.toNumber))
  | none, none =>
    if op = equal then some (.boolean (v.toNumber == w.toNumber))
    else if op = notEqual then some (.boolean (v.toNumber != w.toNumber))
    else if op = identical then some (.boolean (v.identical w))
    else if op = notIdentical then some (.boolean !v.identical w)
    else if op = and then some (.boolean (v.toBoolean && w.toBoolean))
    else if op = or then some (.boolean (v.toBoolean || w.toBoolean))
    else none

/-- Every operator has its result for all operands. -/
theorem BinaryOp.attempt_eq (op : BinaryOp) (v w : Value) :
    op.attempt v w = some (op.apply v w) := by
  cases op with
  | divide =>
    change (Binary64.guardedQuotient? v.toNumber w.toNumber).map _ = _
    rw [Binary64.guardedQuotient?_eq]
    rfl
  | remainder =>
    change (Binary64.guardedRemainder? v.toNumber w.toNumber).map _ = _
    rw [Binary64.guardedRemainder?_eq]
    rfl
  | _ => rfl

namespace Expr

/-! ## Turns of the machine -/

/-- One turn of the machine on a host's stack, with a host's operators. Without an operand or a
result to take there is no turn. -/
def attemptTurn (env : Environment) : State → Option Turn
  | ⟨.binary op :: tasks, w :: v :: results⟩ =>
    (op.attempt v w).map fun x => .next ⟨tasks, x :: results⟩
  | ⟨.binary _ :: _, _⟩ => none
  | ⟨.unary _ :: _, []⟩ => none
  | ⟨[], []⟩ => none
  | s => some (turn env s)

variable {env : Environment} {e : Expr} {s : State}

/-- No exception leaves an evaluation: each of its turns is one of the machine. -/
theorem Reachable.attemptTurn_eq (h : Reachable env e.start s) :
    attemptTurn env s = some (turn env s) := by
  have hs := h.supplied
  obtain ⟨tasks, results⟩ := s
  cases tasks with
  | nil =>
    obtain ⟨v, rfl⟩ := List.length_eq_one_iff.1 hs
    rfl
  | cons task tasks =>
    cases task with
    | visit e => rfl
    | unary op =>
      have hlength : 1 ≤ results.length := hs.1
      rcases results with _ | ⟨v, results⟩
      · contradiction
      · rfl
    | binary op =>
      have hlength : 2 ≤ results.length := hs.1
      rcases results with _ | ⟨w, _ | ⟨v, results⟩⟩
      · contradiction
      · contradiction
      · rw [attemptTurn, BinaryOp.attempt_eq]
        rfl

/-! ## Tokens by their index -/

/-- The index of the token to look at, when a number of tokens is left of a stream. Behind the last
token it stays where it is. -/
def currentIndex (tokens : List Token) (left : Nat) : Nat :=
  min (tokens.length - left) (tokens.length - 1)

/-- The token to look at is found by its index. -/
theorem getElem?_currentIndex {tokens rest : List Token} {last : Token}
    (hlast : tokens.getLast? = some last) (hrest : rest <:+ tokens) :
    tokens[currentIndex tokens rest.length]? = some (current last rest) := by
  obtain ⟨taken, rfl⟩ := hrest
  rw [currentIndex, current]
  cases rest with
  | nil =>
    rw [List.append_nil] at hlast ⊢
    rw [List.length_nil, Nat.sub_zero, Nat.min_eq_right (Nat.sub_le _ 1),
      ← List.getLast?_eq_getElem?, hlast]
    rfl
  | cons token rest =>
    rw [Nat.min_eq_left (by simp), List.length_append, Nat.add_sub_cancel,
      List.getElem?_append_right (Nat.le_refl _)]
    simp

/-- What is left of a stream after parsing is the end of what was left before. -/
def LeavesEnd (tokens : List Token) (parsed : Parsed) : Prop :=
  ∀ e rest, parsed = .ok (e, rest) → rest <:+ tokens

/-- Rules leave the end of every stream. -/
structure Rules.LeaveEnds (rules : Rules) : Prop where
  operand (tokens : List Token) : LeavesEnd tokens (rules.operand tokens)
  expression (floor : Nat) (tokens : List Token) : LeavesEnd tokens (rules.expression floor tokens)

variable {last : Token} {limit : Int} {deeper : Rules}

/-- The parenthesis that closes a group is taken off the front. -/
theorem close_leavesEnd (e : Expr) (tokens : List Token) :
    LeavesEnd tokens (close last e tokens) := by
  intro e' rest h
  rw [close] at h
  split at h
  · cases h
    exact List.tail_suffix tokens
  · contradiction

/-- Literals, variables and groups are taken off the front. -/
theorem primary_leavesEnd (hd : deeper.LeaveEnds) (tokens : List Token) :
    LeavesEnd tokens (primary last deeper tokens) := by
  intro e rest h
  cases hk : (current last tokens).kind with
  | number =>
    simp only [primary, hk] at h
    cases hvalue : (current last tokens).value.toFloat with
    | error failure =>
      rw [hvalue] at h
      contradiction
    | ok x =>
      rw [hvalue] at h
      cases h
      exact List.tail_suffix tokens
  | boolean | ident =>
    simp only [primary, hk] at h
    cases h
    exact List.tail_suffix tokens
  | opening =>
    simp only [primary, hk] at h
    cases hinner : deeper.expression 0 tokens.tail with
    | error failure => simp only [hinner] at h; contradiction
    | ok p =>
      simp only [hinner] at h
      exact (close_leavesEnd p.1 p.2 e rest h).trans
        ((hd.expression 0 tokens.tail p.1 p.2 hinner).trans (List.tail_suffix tokens))
  | operator | closing | eof =>
    simp only [primary, hk] at h
    contradiction

/-- Prefix operators and their operands are taken off the front. -/
theorem operand_leavesEnd (hd : deeper.LeaveEnds) (tokens : List Token) :
    LeavesEnd tokens (operand last deeper tokens) := by
  intro e rest h
  cases hop : (current last tokens).unaryOp? with
  | error failure =>
    simp only [operand, hop] at h
    contradiction
  | ok op? =>
    cases op? with
    | none =>
      simp only [operand, hop] at h
      exact primary_leavesEnd hd tokens e rest h
    | some op =>
      simp only [operand, hop] at h
      cases hinner : deeper.operand tokens.tail with
      | error failure =>
        rw [hinner] at h
        contradiction
      | ok p =>
        rw [hinner] at h
        cases h
        exact (hd.operand tokens.tail p.1 p.2 hinner).trans (List.tail_suffix tokens)

/-- The loop takes operators and right operands off the front. -/
theorem chain_leavesEnd (hd : deeper.LeaveEnds) (floor : Nat) (turns : List Token) (left : Expr)
    (tokens : List Token) : LeavesEnd tokens (chain deeper floor turns left tokens) := by
  intro e rest h
  induction turns generalizing left tokens with
  | nil =>
    cases h
    exact List.suffix_rfl
  | cons turn turns ih =>
    cases tokens with
    | nil =>
      cases h
      exact List.suffix_rfl
    | cons t tokens =>
      rcases exists_join_or_below floor t tokens with ⟨op, hop, hle⟩ | hbelow
      · rw [chain_join hop hle] at h
        cases hright : deeper.expression (op.level + 1) tokens with
        | error failure =>
          simp only [hright] at h
          contradiction
        | ok p =>
          simp only [hright] at h
          exact (ih _ _ h).trans
            ((hd.expression _ _ p.1 p.2 hright).trans (List.suffix_cons t tokens))
      · rw [chain_stop hbelow] at h
        cases h
        exact List.suffix_rfl

/-- Rules built on rules that leave the end of every stream leave it, too. -/
theorem Rules.LeaveEnds.above (hd : deeper.LeaveEnds) : (Rules.above last deeper).LeaveEnds where
  operand := operand_leavesEnd hd
  expression floor tokens e rest h := by
    simp only [Rules.above] at h
    cases hleft : Expr.operand last deeper tokens with
    | error failure =>
      simp only [hleft] at h
      contradiction
    | ok p =>
      simp only [hleft] at h
      exact (chain_leavesEnd hd floor p.2 p.1 p.2 e rest h).trans
        (operand_leavesEnd hd tokens p.1 p.2 hleft)

/-- The rules of every height leave the end of every stream, well typed or not. -/
theorem Rules.tower_leaveEnds (levels : Nat) : (Rules.tower last limit levels).LeaveEnds := by
  induction levels with
  | zero =>
    constructor
    · intro tokens e rest h
      contradiction
    · intro floor tokens e rest h
      contradiction
  | succ levels ih => exact ih.above

end Expr

end Criterion
