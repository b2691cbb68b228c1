import Criterion.Proofs.Binary64.Pattern
import Criterion.Proofs.Decimal.ReadBack
import Criterion.Proofs.Expr.Names
import Criterion.Proofs.Expr.Source

/-!
# The leaves of trees that are parsed

Every number in a tree is the double of a run of digits in its source, so that none is negative, and
every variable is a word of the source that is not reserved and no truth value.
-/

namespace Criterion

/-- The number of a token that is one. -/
def Token.number? (t : Token) : Option Float :=
  match t.kind, t.value with
  | .number, .float x => some x
  | _, _ => none

/-- A token of another kind has no number. -/
theorem Token.number?_eq_none {t : Token} (hk : t.kind ≠ .number) : t.number? = none := by
  unfold Token.number?
  split
  · contradiction
  · rfl

/-- A name that a source can have: a word that is not reserved and no truth value. -/
structure Token.IsName (name : String) : Prop where
  word : ∃ c run, name = String.ofList (c :: run) ∧ isWordStart c ∧ ∀ d ∈ run, isWordChar d
  free : name ∉ reservedNames
  ne_true : name ≠ "true"
  ne_false : name ≠ "false"

namespace Expr

open Token Binary64

variable {e : Expr} {pieces : List Token.Piece} {name : String} {x : Float}
  {source : String} {maxLength maxDepth : Int}

/-- The numbers in a tree from left to right. -/
def numbers : Expr → List Float
  | number x => [x]
  | boolean _ | ident _ => []
  | unary _ operand => operand.numbers
  | binary _ left right => left.numbers ++ right.numbers

/-- The numbers of a tree are those of its tokens, in their order. -/
theorem Derivation.filterMap_number? {k : Nat} {tokens : List Token} (D : Derivation k tokens e) :
    tokens.filterMap Token.number? = e.numbers := by
  refine D.filterMap_eq ?_ ?_ (fun _ _ => rfl) (fun _ _ _ => rfl)
  · intro t e h
    cases h <;> rfl
  · intro t hk
    refine number?_eq_none fun hnumber => ?_
    simp [hnumber] at hk

/-! ## Tokens of pieces -/

private theorem run_of_number? {q : Placed} {t : Token} (hq : q.token? = some t)
    (hx : t.number? = some x) : x = (Decimal.ofRun q.piece.text).toFloat false := by
  obtain ⟨pos, kind, chars⟩ := q
  cases kind with
  | blank => contradiction
  | number =>
      cases hq
      cases hx
      rfl
  | word =>
      simp only [Placed.token?] at hq
      split at hq
      · cases hq
        contradiction
      · split at hq <;> cases hq <;> contradiction
  | opening | closing | operator =>
      cases hq
      contradiction

private theorem word_of_name? {q : Placed} {t : Token} (hq : q.token? = some t)
    (hname : t.name? = some name) :
    q.piece.kind = .word ∧ name = String.ofList q.piece.text ∧ name ≠ "true" ∧ name ≠ "false" := by
  obtain ⟨pos, kind, chars⟩ := q
  cases kind with
  | blank => contradiction
  | word =>
      simp only [Placed.token?] at hq
      split at hq
      · cases hq
        contradiction
      · rename_i htrue
        split at hq
        · cases hq
          contradiction
        · rename_i hfalse
          cases hq
          cases hname
          exact ⟨rfl, rfl, htrue, hfalse⟩
  | number | opening | closing | operator =>
      cases hq
      contradiction

private theorem piece_mem_of_mem_place {q : Placed} {pos : Nat} (hq : q ∈ place pos pieces) :
    q.piece ∈ pieces := by
  induction pieces generalizing pos with
  | nil => contradiction
  | cons piece pieces ih =>
      rcases List.mem_cons.1 hq with rfl | hq
      · exact List.mem_cons_self
      · exact List.mem_cons_of_mem _ (ih hq)

/-- A name in the tokens of pieces without fault is one that a source can have. -/
theorem isName_of_mem_name? {text rest : List Char} (hcut : Cut text pieces rest)
    (hpieces : ∀ p ∈ pieces, p.fault? = none)
    (hname : name ∈ (tokensOf 0 pieces).filterMap Token.name?) : IsName name := by
  obtain ⟨t, ht, hname⟩ := List.mem_filterMap.1 hname
  obtain ⟨⟨pos, kind, chars⟩, hmem, hq⟩ := List.mem_filterMap.1 ht
  obtain ⟨_, _, _, _, hfront⟩ := hcut.front_of_mem_place hmem
  obtain ⟨hkind, hword, htrue, hfalse⟩ := word_of_name? hq hname
  obtain rfl : kind = .word := hkind
  have hfault := hpieces _ (piece_mem_of_mem_place hmem)
  refine ⟨?_, ?_, htrue, hfalse⟩
  · cases hfront with
    | word h hrun => exact ⟨_, _, hword, h, hrun.1⟩
  · intro hreserved
    rw [hword] at hreserved
    simp only [Piece.fault?, if_pos hreserved] at hfault
    contradiction

/-! ## Trees of sources -/

/-- Every number of a tree that is parsed is the double nearest to a decimal. -/
theorem numbers_of_ofSource (h : Expr.ofSource source maxLength maxDepth = .ok e) :
    ∀ x ∈ e.numbers, ∃ d : Decimal, x = d.toFloat false := by
  obtain ⟨_, pieces, _, _, D, _⟩ := pieces_of_ofSource h
  rw [← D.filterMap_number?]
  intro x hx
  obtain ⟨t, ht, hnumber⟩ := List.mem_filterMap.1 hx
  obtain ⟨q, _, hq⟩ := List.mem_filterMap.1 ht
  exact ⟨_, run_of_number? hq hnumber⟩

/-- The leaves of a tree that is parsed are leaves that a source can have. -/
theorem leaves_of_ofSource (h : Expr.ofSource source maxLength maxDepth = .ok e) :
    (∀ x ∈ e.numbers, isNegative x = false) ∧ ∀ name ∈ e.names, IsName name := by
  constructor
  · intro x hx
    obtain ⟨d, rfl⟩ := numbers_of_ofSource h x hx
    exact isNegative_ofPattern false (Decimal.pattern_le d)
  · obtain ⟨_, pieces, hcut, hpieces, D, _⟩ := pieces_of_ofSource h
    rw [← D.filterMap_name?]
    intro name hname
    exact isName_of_mem_name? hcut hpieces hname

end Expr

end Criterion
