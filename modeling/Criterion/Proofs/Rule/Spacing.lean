import Criterion.Proofs.Expr.Positions
import Criterion.Proofs.Expr.Semantics
import Criterion.Proofs.Rule.Evaluation
import Criterion.Proofs.Token.Blanks
import Criterion.Proofs.Value.Supply
import Mathlib.Data.List.Basic

/-!
# Blanks do not matter

Blanks that are put into a source outside of its lexemes raise the positions behind them and change
nothing else. The tokens keep their kinds and their values, hence the parser, which reads no
positions, builds the same tree or reports the same fault at its raised position, and a value
depends on the tree alone.
-/

namespace Criterion

/-- A source with blanks put before the character at a position. -/
def spaced (source : String) (p : Nat) (gap : String) : String :=
  String.ofList (source.toList.take p ++ gap.toList ++ source.toList.drop p)

/-- The positions from a given one on are raised, and those before it stay. -/
def raised (p n : Nat) (pos : Int) : Int := if pos < p then pos else pos + n

/-- A position lies between two characters of the same lexeme of a source. -/
def InsideLexeme (source : String) (p : Nat) : Prop :=
  ∃ pieces rest, Token.Segmentation source.toList pieces rest ∧
    ∃ q ∈ Token.place 0 pieces, q.pos < p ∧ p < q.stop

theorem raised_of_lt {p k : Nat} (h : k < p) (n : Nat) : raised p n k = k :=
  if_pos (Int.ofNat_lt.2 h)

theorem raised_of_le {p k : Nat} (h : p ≤ k) (n : Nat) : raised p n k = (k + n : Nat) :=
  if_neg (Int.not_lt.2 (Int.ofNat_le.2 h))

private theorem length_spaced (source : String) (p : Nat) (gap : String) :
    (spaced source p gap).length = source.length + gap.length := by
  have hparts := congrArg List.length (List.take_append_drop p source.toList)
  rw [List.length_append, String.length_toList] at hparts
  rw [spaced, String.length_ofList, List.length_append, List.length_append, String.length_toList]
  omega

namespace Token

variable {text rest : List Char} {pieces : List Piece} {f : Int → Int} {pos n : Nat}

private theorem place_add (pos n : Nat) (pieces : List Piece) :
    place (pos + n) pieces = (place pos pieces).map fun q => ⟨q.pos + n, q.piece⟩ := by
  induction pieces generalizing pos with
  | nil => rfl
  | cons piece pieces ih =>
    rw [place, place, List.map_cons, ← ih, Nat.add_right_comm]

/-- A piece has its token where it begins. -/
theorem token?_moved {q : Placed} (hf : f q.pos = (q.pos + n : Nat)) :
    q.token?.map (Token.moved f) = Placed.token? ⟨q.pos + n, q.piece⟩ := by
  obtain ⟨pos, kind, chars⟩ := q
  have hmoved (kind : Token.Kind) (value : Datum) :
      Token.moved f ⟨kind, value, pos⟩ = ⟨kind, value, (pos + n : Nat)⟩ := by
    rw [Token.moved, hf]
  cases kind with
  | blank => rfl
  | word =>
    simp only [Placed.token?]
    split
    · rw [Option.map_some, hmoved]
    · split <;> rw [Option.map_some, hmoved]
  | number | opening | closing | operator =>
    simp only [Placed.token?, Option.map_some, hmoved]

/-- The tokens of pieces that lie further to the right are moved there. -/
theorem Cut.tokensOf_moved (hcut : Cut text pieces rest)
    (hf : ∀ k : Nat, pos ≤ k → k < pos + extent pieces → f k = (k + n : Nat)) :
    (tokensOf pos pieces).map (Token.moved f) = tokensOf (pos + n) pieces := by
  rw [tokensOf, tokensOf, place_add, List.filterMap_map, List.map_filterMap]
  refine List.filterMap_congr fun q hq => token?_moved (hf q.pos (le_pos_of_mem_place hq) ?_)
  exact Nat.lt_of_lt_of_le (hcut.pos_lt_stop hq) (stop_le_of_mem_place hq)

/-- The tokens of a source that blanks are put into are its own, raised behind the blanks. -/
theorem ofSource_spaced {source gap : String} {p : Nat} {maxLength : Int} {tokens : List Token}
    (htokens : ofSource source maxLength = .ok tokens) (hp : p ≤ source.length)
    (hinside : ¬ InsideLexeme source p) (hgap : ∀ c ∈ gap.toList, c ∈ blanks)
    (hlength : (spaced source p gap).length ≤ maxLength) :
    ofSource (spaced source p gap) maxLength =
      .ok (tokens.map (Token.moved (raised p gap.length))) := by
  obtain ⟨pieces, rest, hseg⟩ := exists_segmentation source.toList
  obtain ⟨rfl, hfaultless, rfl⟩ :=
    (ofSource_eq_ok_iff (length_le_of_ofSource htokens) hseg).1 htokens
  have hextent : source.length = extent pieces := by
    rw [← String.length_toList, hseg.1.length_eq]
  have hbetween : ∀ q ∈ place 0 pieces, ¬ (q.pos < 0 + p ∧ 0 + p < q.stop) := by
    intro q hq hin
    rw [Nat.zero_add] at hin
    exact hinside ⟨_, _, hseg, q, hq, hin⟩
  obtain ⟨before, after, rfl, rfl⟩ := exists_split_at (hextent ▸ hp) hbetween
  obtain ⟨middle, hbefore, hafter⟩ := hseg.1.split
  have hcut : Cut (spaced source (extent before) gap).toList
      (before ++ blankPieces gap.toList ++ after) [] := by
    rw [spaced, String.toList_ofList]
    exact hseg.1.insert_blanks hgap
  have hfaultless' : ∀ piece ∈ before ++ blankPieces gap.toList ++ after, piece.fault? = none := by
    obtain ⟨hbefore, hafter⟩ := List.forall_mem_append.1 hfaultless
    rw [List.forall_mem_append, List.forall_mem_append]
    exact ⟨⟨hbefore, fun piece => fault?_of_mem_blankPieces⟩, hafter⟩
  have hbelow : (tokensOf 0 before).map (Token.moved (raised (extent before) gap.length)) =
      tokensOf 0 before := hbefore.tokensOf_moved (n := 0) fun k _ hk =>
    raised_of_lt (Nat.zero_add (extent before) ▸ hk) gap.length
  have habove : (tokensOf (extent before) after).map
      (Token.moved (raised (extent before) gap.length)) =
        tokensOf (extent before + gap.length) after :=
    hafter.tokensOf_moved fun k hk _ => raised_of_le hk gap.length
  have hend : Token.moved (raised (extent before) gap.length) ⟨.eof, .text "", source.length⟩ =
      ⟨.eof, .text "", (spaced source (extent before) gap).length⟩ := by
    rw [Token.moved, raised_of_le hp, length_spaced]
  rw [ofSource_of_faultless hlength hcut hfaultless', tokensOf_append, tokensOf_append,
    tokensOf_append, tokensOf_blankPieces, extent_append, extent_blankPieces, String.length_toList,
    List.append_nil, Nat.zero_add, Nat.zero_add, List.map_append, List.map_append, hbelow, habove,
    List.map_singleton, hend]

end Token

/-! ## Trees and values -/

/-- Variables are rejected without a position. -/
theorem Environment.moved_of_ofDatum {supplied : Datum} {failure : Failure}
    (h : Environment.ofDatum supplied = .error failure) (f : Int → Int) :
    failure.moved f = failure := by
  obtain ⟨key, typeName, rfl⟩ | rfl := ofDatum_eq_error_cases h <;> rfl

/-- A variable is missed without a position. -/
theorem Expr.moved_of_evaluate {e : Expr} {env : Environment} {failure : Failure}
    (h : e.evaluate env = .error failure) (f : Int → Int) : failure.moved f = failure := by
  obtain ⟨last, hreach, hhalt⟩ := exists_halt env e.start
  rw [← evaluate, h] at hhalt
  rcases hreach.halt_cases hhalt with ⟨v, _, hv⟩ | ⟨name, hname⟩
  · contradiction
  · cases hname
    rfl

/-- An evaluation moves with the parsing: other failures have no position. -/
theorem evaluate_moved {limits : Limits} {source source' : String} {f : Int → Int}
    (h : Expr.parse limits source' = (Expr.parse limits source).mapError (Failure.moved f))
    (supplied : Datum) :
    (evaluate limits source' supplied).outcome =
      (evaluate limits source supplied).outcome.mapError (Failure.moved f) := by
  simp only [evaluate, Logged.of, h]
  cases henv : Environment.ofDatum supplied with
  | error failure =>
    exact congrArg Except.error (Environment.moved_of_ofDatum henv f).symm
  | ok env =>
    cases Expr.parse limits source with
    | error failure => rfl
    | ok e =>
      change e.evaluate env = (e.evaluate env).mapError (Failure.moved f)
      cases hvalue : e.evaluate env with
      | ok v => rfl
      | error failure => exact congrArg Except.error (Expr.moved_of_evaluate hvalue f).symm

section Source

variable {source gap : String} {p : Nat} {maxLength : Int} {tokens : List Token}

/-- A source with blanks put into it has the same tree, or the same failure at its raised position,
under every limit of depth. -/
theorem Expr.ofSource_spaced (htokens : Token.ofSource source maxLength = .ok tokens)
    (hp : p ≤ source.length) (hinside : ¬ InsideLexeme source p)
    (hgap : ∀ c ∈ gap.toList, c ∈ Token.blanks)
    (hlength : (spaced source p gap).length ≤ maxLength) (maxDepth : Int) :
    Expr.ofSource (spaced source p gap) maxLength maxDepth =
      (Expr.ofSource source maxLength maxDepth).mapError
        (Failure.moved (raised p gap.length)) := by
  rw [Expr.ofSource, Expr.ofSource, htokens,
    Token.ofSource_spaced htokens hp hinside hgap hlength]
  exact Expr.ofTokens_moved _ tokens maxDepth

/-- Blanks are neutral. Put into a source anywhere but inside a lexeme, they leave the kinds and the
values of its tokens as they are and raise the positions behind them; the source has the same tree
or the same failure at its raised position, and it has the same value, evaluated or run. -/
theorem blanks_neutral (htokens : Token.ofSource source maxLength = .ok tokens)
    (hp : p ≤ source.length) (hinside : ¬ InsideLexeme source p)
    (hgap : ∀ c ∈ gap.toList, c ∈ Token.blanks)
    (hlength : (spaced source p gap).length ≤ maxLength) :
    Token.ofSource (spaced source p gap) maxLength =
        .ok (tokens.map (Token.moved (raised p gap.length))) ∧
      (∀ maxDepth, Expr.ofSource (spaced source p gap) maxLength maxDepth =
        (Expr.ofSource source maxLength maxDepth).mapError
          (Failure.moved (raised p gap.length))) ∧
      ∀ limits : Limits, limits.maxLength = maxLength →
        (∀ supplied, (evaluate limits (spaced source p gap) supplied).outcome =
          (evaluate limits source supplied).outcome.mapError
            (Failure.moved (raised p gap.length))) ∧
        (∀ rule, (Rule.compile limits source).outcome = .ok rule →
          ∃ rule', (Rule.compile limits (spaced source p gap)).outcome = .ok rule' ∧
            rule'.expr = rule.expr ∧ ∀ supplied, rule'.run supplied = rule.run supplied) ∧
        ∀ failure, (Rule.compile limits source).outcome = .error failure →
          (Rule.compile limits (spaced source p gap)).outcome =
            .error (failure.moved (raised p gap.length)) := by
  have hparse := Expr.ofSource_spaced htokens hp hinside hgap hlength
  refine ⟨Token.ofSource_spaced htokens hp hinside hgap hlength, hparse, ?_⟩
  rintro limits rfl
  have hlimits : Expr.parse limits (spaced source p gap) =
      (Expr.parse limits source).mapError (Failure.moved (raised p gap.length)) :=
    hparse limits.maxDepth
  refine ⟨evaluate_moved hlimits, fun rule hrule => ?_, fun failure hfailure => ?_⟩
  · obtain ⟨_, htree⟩ := Rule.compile_eq_ok_iff.1 hrule
    rw [htree] at hlimits
    exact ⟨⟨spaced source p gap, rule.expr⟩, Rule.compile_eq_ok_iff.2 ⟨rfl, hlimits⟩, rfl,
      fun supplied => rfl⟩
  · rw [Rule.compile_eq_error_iff] at hfailure ⊢
    rw [hlimits, hfailure]
    rfl

private theorem segmentation_comparison :
    Token.Segmentation "a<-b".toList
      [⟨.word, ['a']⟩, ⟨.operator, ['<']⟩, ⟨.operator, ['-']⟩, ⟨.word, ['b']⟩] [] :=
  ⟨.of_pieceAt? rfl rfl (.of_pieceAt? rfl rfl (.of_pieceAt? rfl rfl (.of_pieceAt? rfl rfl
    (.done [])))), Token.stuck_nil⟩

/-- Blanks between two operators that touch one another are neutral. -/
theorem comparison_blanks_neutral :
    Token.ofSource "a<-b" 1000 = .ok [⟨.ident, .text "a", 0⟩, ⟨.operator, .text "<", 1⟩,
        ⟨.operator, .text "-", 2⟩, ⟨.ident, .text "b", 3⟩, ⟨.eof, .text "", 4⟩] ∧
      2 ≤ "a<-b".length ∧ ¬ InsideLexeme "a<-b" 2 ∧ (∀ c ∈ "\t ".toList, c ∈ Token.blanks) ∧
      (("a<\t -b" : String).length : Int) ≤ 1000 ∧
      Token.ofSource "a<\t -b" 1000 = .ok [⟨.ident, .text "a", 0⟩, ⟨.operator, .text "<", 1⟩,
        ⟨.operator, .text "-", 4⟩, ⟨.ident, .text "b", 5⟩, ⟨.eof, .text "", 6⟩] ∧
      (Limits.default.maxLength : Int) = 1000 ∧
      ∀ supplied, (evaluate Limits.default "a<\t -b" supplied).outcome =
        (evaluate Limits.default "a<-b" supplied).outcome.mapError
          (Failure.moved (raised 2 2)) := by
  have htokens : Token.ofSource "a<-b" 1000 = .ok [⟨.ident, .text "a", 0⟩,
      ⟨.operator, .text "<", 1⟩, ⟨.operator, .text "-", 2⟩, ⟨.ident, .text "b", 3⟩,
      ⟨.eof, .text "", 4⟩] := rfl
  have hinside : ¬ InsideLexeme "a<-b" 2 := by
    rintro ⟨pieces, rest, hseg, q, hq, hin⟩
    obtain ⟨rfl, _⟩ := segmentation_comparison.unique hseg
    have hbetween : ∀ q ∈ Token.place 0 [⟨.word, ['a']⟩, ⟨.operator, ['<']⟩, ⟨.operator, ['-']⟩,
        ⟨.word, ['b']⟩], ¬ (q.pos < 2 ∧ 2 < q.stop) := by decide
    exact hbetween q hq hin
  have hgap : ∀ c ∈ "\t ".toList, c ∈ Token.blanks :=
    List.forall_mem_cons.2 ⟨by decide, List.forall_mem_singleton.2 (by decide)⟩
  obtain ⟨hspaced, _, hvalues⟩ := blanks_neutral htokens (by decide) hinside hgap (by decide)
  exact ⟨htokens, by decide, hinside, hgap, by decide, hspaced, rfl,
    (hvalues Limits.default rfl).1⟩

end Source

end Criterion
