import Criterion.Proofs.Expr.Climbing

/-!
# The parser reads no positions

The positions of tokens go into reports and nowhere else. When the tokens of a stream are moved, by
whatever function of their positions, the parser takes the same steps and comes to the same tree, or
to the same failure at a position that is moved in the same way.
-/

namespace Criterion

/-- A token moved by a function of its position. -/
def Token.moved (f : Int → Int) (t : Token) : Token := { t with pos := f t.pos }

/-- A failure whose position, if it has one, is moved. -/
def Failure.moved (f : Int → Int) : Failure → Failure
  | .rejected e => .rejected { e with pos := e.pos.map f }
  | failure => failure

/-- A datum without a number is reported without a position. -/
theorem Datum.moved_of_toFloat {d : Datum} {failure : Failure} (h : d.toFloat = .error failure)
    (f : Int → Int) : failure.moved f = failure := by
  cases d with
  | boolean b => cases h
  | float x => cases h
  | integer n =>
    rw [toFloat] at h
    cases hfound : Binary64.ofInt? n with
    | some x =>
      rw [hfound] at h
      contradiction
    | none =>
      rw [hfound] at h
      cases h
      rfl
  | text s =>
    rw [toFloat] at h
    cases hfound : Numeral.readFloat? s.toList with
    | some x =>
      rw [hfound] at h
      contradiction
    | none =>
      rw [hfound] at h
      cases h
      rfl
  | _ =>
    cases h
    rfl

/-- A symbol that cannot be looked up is reported without a position. -/
theorem Token.moved_of_unaryOp? {t : Token} {failure : Failure} (h : t.unaryOp? = .error failure)
    (f : Int → Int) : failure.moved f = failure := by
  unfold unaryOp? at h
  split at h
  · split at h
    · contradiction
    · split at h <;> cases h
      rfl
  · contradiction

namespace Expr

/-- What is parsed, with the tokens that follow or the failure moved. -/
def Parsed.moved (f : Int → Int) : Parsed → Parsed
  | .ok (e, rest) => .ok (e, rest.map (Token.moved f))
  | .error failure => .error (failure.moved f)

/-- Rules make of moved streams what other rules make of the streams themselves, moved. -/
structure Rules.Moved (f : Int → Int) (rules rules' : Rules) : Prop where
  operand (tokens : List Token) :
    rules'.operand (tokens.map (Token.moved f)) = Parsed.moved f (rules.operand tokens)
  expression (floor : Nat) (tokens : List Token) :
    rules'.expression floor (tokens.map (Token.moved f)) =
      Parsed.moved f (rules.expression floor tokens)

variable {f : Int → Int} {last : Token} {limit : Int} {deeper deeper' : Rules}

theorem current_moved (f : Int → Int) (last : Token) (tokens : List Token) :
    current (last.moved f) (tokens.map (Token.moved f)) = (current last tokens).moved f := by
  cases tokens <;> rfl

/-! ## One level of rules -/

/-- A group is closed as before. -/
theorem close_moved (f : Int → Int) (last : Token) (e : Expr) (tokens : List Token) :
    close (last.moved f) e (tokens.map (Token.moved f)) =
      Parsed.moved f (close last e tokens) := by
  have hkind : ((current last tokens).moved f).kind = (current last tokens).kind := rfl
  simp only [close, current_moved, hkind, ← List.map_tail]
  split <;> rfl

/-- Literals, variables and groups are read as before. -/
theorem primary_moved (h : deeper.Moved f deeper') (tokens : List Token) :
    primary (last.moved f) deeper' (tokens.map (Token.moved f)) =
      Parsed.moved f (primary last deeper tokens) := by
  have hkind : ((current last tokens).moved f).kind = (current last tokens).kind := rfl
  have hvalue : ((current last tokens).moved f).value = (current last tokens).value := rfl
  simp only [primary, current_moved, hkind, hvalue, ← List.map_tail]
  cases (current last tokens).kind with
  | number =>
    simp only
    cases hread : (current last tokens).value.toFloat with
    | error failure =>
      have hsame := Datum.moved_of_toFloat hread f
      simp only [Except.map, Parsed.moved, hsame]
    | ok x => rfl
  | opening =>
    simp only [h.expression]
    cases deeper.expression 0 tokens.tail with
    | error failure => rfl
    | ok p => exact close_moved f last p.1 p.2
  | _ => rfl

/-- Prefix operators and their operands are read as before. -/
theorem operand_moved (h : deeper.Moved f deeper') (tokens : List Token) :
    operand (last.moved f) deeper' (tokens.map (Token.moved f)) =
      Parsed.moved f (operand last deeper tokens) := by
  have hsame : ((current last tokens).moved f).unaryOp? = (current last tokens).unaryOp? := rfl
  simp only [operand, current_moved, hsame, ← List.map_tail]
  cases hop : (current last tokens).unaryOp? with
  | error failure =>
    have hunmoved := Token.moved_of_unaryOp? hop f
    simp only [Parsed.moved, hunmoved]
  | ok op? =>
    cases op? with
    | none => exact primary_moved h tokens
    | some op =>
      simp only [h.operand]
      cases deeper.operand tokens.tail <;> rfl

/-- The loop joins the same operands. -/
theorem chain_moved (h : deeper.Moved f deeper') (floor : Nat) (turns : List Token) (left : Expr)
    (tokens : List Token) :
    chain deeper' floor (turns.map (Token.moved f)) left (tokens.map (Token.moved f)) =
      Parsed.moved f (chain deeper floor turns left tokens) := by
  induction turns generalizing left tokens with
  | nil => rfl
  | cons turn turns ih =>
    cases tokens with
    | nil => rfl
    | cons t tokens =>
      have hsame : (t.moved f).binaryOp? = t.binaryOp? := rfl
      rcases exists_join_or_below floor t tokens with ⟨op, hop, hle⟩ | hbelow
      · rw [List.map_cons, List.map_cons, chain_join (hsame.trans hop) hle, chain_join hop hle,
          h.expression]
        cases deeper.expression (op.level + 1) tokens with
        | error failure => rfl
        | ok p => exact ih (.binary op left p.1) p.2
      · have hbelow' : Below floor ((t :: tokens).map (Token.moved f)) := by
          rw [List.map_cons, below_cons, hsame]
          exact below_cons.1 hbelow
        rw [chain_stop hbelow, chain_stop hbelow']
        rfl

/-- Rules built on rules that move move, too. -/
theorem Rules.Moved.above (h : deeper.Moved f deeper') :
    (Rules.above last deeper).Moved f (Rules.above (last.moved f) deeper') where
  operand := operand_moved h
  expression floor tokens := by
    simp only [Rules.above, operand_moved h]
    cases Expr.operand last deeper tokens with
    | error failure => rfl
    | ok p => exact chain_moved h floor p.2 p.1 p.2

/-! ## Whole streams -/

/-- The rules of every height move. -/
theorem Rules.tower_moved (f : Int → Int) (last : Token) (limit : Int) (levels : Nat) :
    (Rules.tower last limit levels).Moved f (Rules.tower (last.moved f) limit levels) := by
  induction levels with
  | zero =>
    have hrefuse (tokens : List Token) :
        (reject (.tooDeep limit) (some (current (last.moved f) (tokens.map (Token.moved f))).pos) :
          Parsed) = Parsed.moved f (reject (.tooDeep limit) (some (current last tokens).pos)) := by
      rw [current_moved]
      rfl
    exact ⟨hrefuse, fun _ => hrefuse⟩
  | succ levels ih => exact ih.above

/-- A stream whose tokens are moved has the same tree, or the same failure at the moved position,
under every limit of depth. -/
theorem ofTokens_moved (f : Int → Int) (tokens : List Token) (maxDepth : Int) :
    ofTokens (tokens.map (Token.moved f)) maxDepth =
      (ofTokens tokens maxDepth).mapError (Failure.moved f) := by
  simp only [ofTokens, List.getLast?_map]
  split
  · rfl
  · cases tokens.getLast? with
    | none => rfl
    | some last =>
      have htower := Rules.tower_moved f last maxDepth (maxDepth.toNat + 1)
      simp only [Option.map_some, htower.expression]
      cases (Rules.tower last maxDepth (maxDepth.toNat + 1)).expression 0 tokens with
      | error failure => rfl
      | ok p =>
        obtain ⟨e, rest⟩ := p
        have hkind : ((current last rest).moved f).kind = (current last rest).kind := rfl
        simp only [Parsed.moved, current_moved, hkind]
        split <;> rfl

end Expr

end Criterion
