import Criterion.Proofs.Expr.Blame
import Criterion.Proofs.Expr.Names
import Criterion.Proofs.Expr.Source

/-!
# The stages at which expressions fail

The lexer, the parser and the evaluation each fail in one way only: they reject an expression for
one of the causes of their own stage. In particular none of them misses a token, a numeral, an
operand or a limit in range.
-/

namespace Criterion

/-- A cause that a stage reports or that the check of variables does. All other causes are made by
hand. -/
def Cause.IsSpecific : Cause → Prop
  | .tooLong .. | .unexpectedCharacter _ | .invalidNumber _ | .blockedIdentifier _
  | .unexpectedToken .. | .expectedToken .. | .trailingTokens _ | .tooDeep _
  | .undefinedVariable _ | .unsupportedVariable .. => True
  | .other .. => False

/-- A failure is a rejection for a cause of a stage. -/
inductive Failure.ReportedAt (stage : Option Stage) : Failure → Prop where
  | rejected {cause : Cause} {pos : Option Int} (hcause : cause.IsSpecific)
      (hstage : cause.stage? = stage) : ReportedAt stage (.rejected ⟨cause, pos⟩)

variable {failure : Failure}

/-- A fault of a piece belongs to the lexer. -/
theorem Token.reportedAt_of_fault? {piece : Token.Piece} {cause : Cause}
    (h : piece.fault? = some cause) (pos : Option Int) :
    Failure.ReportedAt (some .lexing) (.rejected ⟨cause, pos⟩) := by
  obtain ⟨kind, text⟩ := piece
  cases kind with
  | number | word =>
    simp only [Piece.fault?] at h
    split at h <;> cases h
    exact .rejected trivial rfl
  | _ => contradiction

/-- The lexer fails in lexing. -/
theorem Token.reportedAt_of_ofSource {source : String} {maxLength : Int}
    (h : Token.ofSource source maxLength = .error failure) :
    failure.ReportedAt (some .lexing) := by
  by_cases hlength : maxLength < source.length
  · rw [Token.ofSource, if_pos hlength] at h
    cases h
    exact .rejected trivial rfl
  · obtain ⟨pieces, rest, hseg⟩ := exists_segmentation source.toList
    cases (Token.ofSource_eq_error_iff (Int.not_lt.1 hlength) hseg).1 h with
    | fault _ _ hfault => exact reportedAt_of_fault? hfault _
    | character _ _ => exact .rejected trivial rfl

namespace Expr

variable {tokens : List Token} {last : Token} {maxDepth : Int}

/-- The parser fails in parsing on every well-typed stream, under every limit in range. -/
theorem reportedAt_of_ofTokens (hlast : last.kind = .eof) (htokens : ∀ t ∈ tokens, t.WellTyped)
    (hpos : 1 ≤ maxDepth) (hle : maxDepth ≤ deepestLimit)
    (h : ofTokens (tokens ++ [last]) maxDepth = .error failure) :
    failure.ReportedAt (some .parsing) := by
  have htyped : ∀ t ∈ tokens ++ [last], t.WellTyped := by
    rw [List.forall_mem_append, List.forall_mem_singleton]
    exact ⟨htokens, by simp [Token.WellTyped, hlast]⟩
  rw [ofTokens_eq_tower hpos hle] at h
  cases hread : (Rules.tower last maxDepth (maxDepth.toNat + 1)).expression 0
    (tokens ++ [last]) with
  | error failure' =>
    simp only [hread] at h
    cases h
    cases (Rules.tower_blames hlast _).expression 0 (Nat.zero_le 7) htyped hread with
    | deep pos => exact .rejected trivial rfl
    | operand _ _ _ => exact .rejected trivial rfl
    | closing _ _ _ _ => exact .rejected trivial rfl
  | ok p =>
    obtain ⟨e, rest⟩ := p
    simp only [hread] at h
    split at h
    · contradiction
    · cases h
      exact .rejected trivial rfl

/-- A source fails in lexing or in parsing, under every limit of depth in range. -/
theorem reportedAt_of_ofSource {source : String} {maxLength : Int} (hpos : 1 ≤ maxDepth)
    (hle : maxDepth ≤ deepestLimit)
    (h : Expr.ofSource source maxLength maxDepth = .error failure) :
    failure.ReportedAt (some .lexing) ∨ failure.ReportedAt (some .parsing) := by
  cases hlexed : Token.ofSource source maxLength with
  | error failure' =>
    rw [Expr.ofSource, hlexed] at h
    cases h
    exact .inl (Token.reportedAt_of_ofSource hlexed)
  | ok tokens =>
    obtain ⟨before, last, rfl, hlast, htokens⟩ := exists_eq_append_eof hlexed
    rw [Expr.ofSource, hlexed] at h
    exact .inr (reportedAt_of_ofTokens hlast (fun t ht => (htokens t ht).1) hpos hle h)

/-- An evaluation fails in evaluation. -/
theorem reportedAt_of_evaluate {e : Expr} {env : Environment}
    (h : e.evaluate env = .error failure) : failure.ReportedAt (some .evaluation) := by
  rw [evaluate, run_start] at h
  cases hfind : e.names.find? (fun s => (env.find? s).isNone) with
  | none =>
    have hall : ∀ name ∈ e.names, env.find? name ≠ none := by
      simpa using hfind
    obtain ⟨v, hv⟩ := exists_denote_eq_ok hall
    rw [hv] at h
    contradiction
  | some name =>
    rw [denote_of_first_missing hfind] at h
    cases h
    exact .rejected trivial rfl

end Expr

end Criterion
