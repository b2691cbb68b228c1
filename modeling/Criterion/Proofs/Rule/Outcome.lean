import Criterion.Proofs.Expr.Exceptions
import Criterion.Proofs.Failure.Stage
import Criterion.Proofs.Rule.Evaluation
import Criterion.Proofs.Value.Supply

/-!
# What can come of an expression

Under limits in range a source and variables of any kind come to a value or to a rejection for a
documented cause. Nothing else can fail on the way, so that every condition has an answer, and a
warning is recorded exactly if the answer stands for a rejection. The one exception is a key among
the variables that cannot be written in its own report: its failure is no rejection, and it is the
failure of the condition, too.
-/

namespace Criterion

/-- The warnings among what was recorded. -/
def Logged.warnings {α : Type} (logged : Logged α) : List Record :=
  logged.records.filter fun record => record.level = .warning

/-- The failures that expressions and variables come to under limits in range. -/
inductive Failure.ConcernsExpression : Failure → Prop where
  | rejected {e : Rejection} (he : e.cause.IsSpecific) : ConcernsExpression (.rejected e)
  /-- A key cannot be written in its report. -/
  | unwritten : ConcernsExpression (.misuse (.longInteger none))

variable {limits : Limits} {source : String} {supplied : Datum} {failure : Failure}

/-- What a stage reports is a rejection for a documented cause. -/
theorem Failure.ReportedAt.exists_rejection {stage : Option Stage} (h : failure.ReportedAt stage) :
    ∃ e, failure = .rejected e ∧ e.cause.IsSpecific := by
  cases h with
  | rejected hcause _ => exact ⟨_, rfl, hcause⟩

/-- A source fails to have a tree only by a rejection for a documented cause. -/
theorem Expr.exists_rejection_of_parse (h : Expr.parse limits source = .error failure) :
    ∃ e, failure = .rejected e ∧ e.cause.IsSpecific := by
  obtain ⟨hpos, hle⟩ := limits.maxDepth_inRange
  rcases Expr.reportedAt_of_ofSource hpos hle h with hlexing | hparsing
  · exact hlexing.exists_rejection
  · exact hparsing.exists_rejection

/-- A source is compiled unless it is rejected for a documented cause. -/
theorem Rule.exists_rejection_of_compile
    (h : (Rule.compile limits source).outcome = .error failure) :
    ∃ e, failure = .rejected e ∧ e.cause.IsSpecific :=
  Expr.exists_rejection_of_parse (Rule.compile_eq_error_iff.1 h)

/-- Variables that can be reported are refused only by a rejection for a documented cause. -/
theorem Environment.exists_rejection_of_ofDatum (hreport : ¬Unreportable supplied)
    (h : Environment.ofDatum supplied = .error failure) :
    ∃ e, failure = .rejected e ∧ e.cause.IsSpecific := by
  obtain ⟨key, typeName, rfl⟩ := Environment.rejected_of_ofDatum h hreport
  exact ⟨_, rfl, trivial⟩

/-- A rule fails only by a rejection for a documented cause. -/
theorem Rule.exists_rejection_of_run {rule : Rule} (hreport : ¬Environment.Unreportable supplied)
    (h : rule.run supplied = .error failure) :
    ∃ e, failure = .rejected e ∧ e.cause.IsSpecific := by
  rw [run] at h
  cases henv : Environment.ofDatum supplied with
  | error unsupported =>
    rw [henv] at h
    cases h
    exact Environment.exists_rejection_of_ofDatum hreport henv
  | ok env =>
    rw [henv] at h
    exact (Expr.reportedAt_of_evaluate h).exists_rejection

/-- An evaluation fails only by a rejection for a documented cause. -/
theorem exists_rejection_of_evaluate (hreport : ¬Environment.Unreportable supplied)
    (h : (evaluate limits source supplied).outcome = .error failure) :
    ∃ e, failure = .rejected e ∧ e.cause.IsSpecific := by
  cases hcompile : (Rule.compile limits source).outcome with
  | ok rule =>
    rw [evaluate_of_compile hcompile] at h
    exact Rule.exists_rejection_of_run hreport h
  | error malformed =>
    rw [evaluate_of_not_compiled hcompile] at h
    cases henv : Environment.ofDatum supplied with
    | error unsupported =>
      rw [henv] at h
      cases h
      exact Environment.exists_rejection_of_ofDatum hreport henv
    | ok env =>
      rw [henv] at h
      cases h
      exact Rule.exists_rejection_of_compile hcompile

/-- A key that cannot be written in its report makes every evaluation fail. -/
theorem evaluate_of_unreportable (h : Environment.Unreportable supplied) (limits : Limits)
    (source : String) :
    (evaluate limits source supplied).outcome = .error (.misuse (.longInteger none)) :=
  evaluate_of_refused (Environment.unreportable_iff.1 h) limits source

/-! ## Conditions -/

/-- What an outcome records by itself is no warning. -/
theorem warnings_of {α : Type} (outcome : Except Failure α) :
    (Logged.of outcome).warnings = [] := by
  cases outcome with
  | ok a => rfl
  | error failure =>
    rw [Logged.warnings, Logged.of]
    unfold Record.ofFailure
    split <;> rfl

/-- A condition with a value holds if that is true, and there is no warning. -/
theorem holds_of_value {v : Value} (h : (evaluate limits source supplied).outcome = .ok v) :
    (holds limits source supplied).outcome = .ok v.toBoolean ∧
      (holds limits source supplied).warnings = [] := by
  have hwarnings : (evaluate limits source supplied).warnings = [] := warnings_of _
  rw [holds, h]
  exact ⟨rfl, hwarnings⟩

/-- A condition that is rejected does not hold, and the rejection is the only warning. -/
theorem holds_of_rejection {e : Rejection}
    (h : (evaluate limits source supplied).outcome = .error (.rejected e)) :
    (holds limits source supplied).outcome = .ok false ∧
      (holds limits source supplied).warnings = [Record.rejected e] := by
  have hwarnings : (evaluate limits source supplied).warnings = [] := warnings_of _
  rw [Logged.warnings] at hwarnings
  rw [holds, h]
  refine ⟨rfl, ?_⟩
  rw [Logged.warnings, List.filter_append, hwarnings]
  rfl

/-- A condition with a key that cannot be written in its report fails without a warning. -/
theorem holds_of_unreportable (h : Environment.Unreportable supplied) (limits : Limits)
    (source : String) :
    (holds limits source supplied).outcome = .error (.misuse (.longInteger none)) ∧
      (holds limits source supplied).warnings = [] := by
  have hwarnings : (evaluate limits source supplied).warnings = [] := warnings_of _
  rw [holds, evaluate_of_unreportable h]
  exact ⟨rfl, hwarnings⟩

/-- A condition has an answer unless there is a key that cannot be written in its report. -/
theorem exists_holds_eq_ok (hreport : ¬Environment.Unreportable supplied) (limits : Limits)
    (source : String) : ∃ b, (holds limits source supplied).outcome = .ok b := by
  cases h : (evaluate limits source supplied).outcome with
  | ok v => exact ⟨_, (holds_of_value h).1⟩
  | error failure =>
    obtain ⟨e, rfl, _⟩ := exists_rejection_of_evaluate hreport h
    exact ⟨_, (holds_of_rejection h).1⟩

/-! ## What fails at all -/

theorem Rule.concernsExpression_of_compile
    (h : (Rule.compile limits source).outcome = .error failure) : failure.ConcernsExpression := by
  obtain ⟨e, rfl, he⟩ := exists_rejection_of_compile h
  exact .rejected he

/-- The failure for a key that cannot be written is told from a rejection by the variables. -/
private theorem Failure.concernsExpression_of_report (supplied : Datum)
    (hunwritten : Environment.Unreportable supplied → failure = .misuse (.longInteger none))
    (hrejected : ¬Environment.Unreportable supplied →
      ∃ e, failure = .rejected e ∧ e.cause.IsSpecific) : failure.ConcernsExpression := by
  by_cases hreport : Environment.Unreportable supplied
  · rw [hunwritten hreport]
    exact .unwritten
  · obtain ⟨e, rfl, he⟩ := hrejected hreport
    exact .rejected he

theorem Rule.concernsExpression_of_run {rule : Rule} (h : rule.run supplied = .error failure) :
    failure.ConcernsExpression := by
  refine Failure.concernsExpression_of_report supplied (fun hreport => ?_)
    fun hreport => exists_rejection_of_run hreport h
  rw [run, Environment.unreportable_iff.1 hreport] at h
  cases h
  rfl

theorem concernsExpression_of_evaluate
    (h : (evaluate limits source supplied).outcome = .error failure) :
    failure.ConcernsExpression := by
  refine Failure.concernsExpression_of_report supplied (fun hreport => ?_)
    fun hreport => exists_rejection_of_evaluate hreport h
  rw [evaluate_of_unreportable hreport] at h
  cases h
  rfl

theorem concernsExpression_of_holds
    (h : (holds limits source supplied).outcome = .error failure) : failure.ConcernsExpression := by
  refine Failure.concernsExpression_of_report supplied (fun hreport => ?_) fun hreport => ?_
  · rw [(holds_of_unreportable hreport limits source).1] at h
    cases h
    rfl
  · obtain ⟨b, hb⟩ := exists_holds_eq_ok hreport limits source
    rw [hb] at h
    contradiction

/-! ## The contract -/

/-- Nothing but a documented rejection comes of an expression that has no value, unless a key cannot
be written in its report. Every other evaluation comes to a value or to a rejection for one of the
specific causes, and the condition answers with the truth of the value and without a warning, or
with no and with the one warning of the rejection. With a key that cannot be written both fail, for
every source and without a warning. On the way every number that is no fault is read; whatever end
of a stream the parser has come to, the token to look at is found by its index; and every turn of
the machine finds its operands and the result of its operator. -/
theorem evaluation_documented (limits : Limits) (source : String) (supplied : Datum) :
    (¬Environment.Unreportable supplied →
      (∃ v, (evaluate limits source supplied).outcome = .ok v ∧
        (holds limits source supplied).outcome = .ok v.toBoolean ∧
        (holds limits source supplied).warnings = []) ∨
      ∃ e, e.cause.IsSpecific ∧ (evaluate limits source supplied).outcome = .error (.rejected e) ∧
        (holds limits source supplied).outcome = .ok false ∧
        (holds limits source supplied).warnings = [Record.rejected e]) ∧
    (Environment.Unreportable supplied →
      (evaluate limits source supplied).outcome = .error (.misuse (.longInteger none)) ∧
      (holds limits source supplied).outcome = .error (.misuse (.longInteger none)) ∧
      (holds limits source supplied).warnings = []) ∧
    (∀ pieces rest, Token.Segmentation source.toList pieces rest → ∀ piece ∈ pieces,
      piece.kind = .number → piece.fault? = none →
        ∃ x, Numeral.readFloat? piece.text = some x) ∧
    (∀ tokens rest last, tokens.getLast? = some last → rest <:+ tokens →
      tokens[Expr.currentIndex tokens rest.length]? = some (Expr.current last rest) ∧
        ∀ limit levels floor e rest',
          (Expr.Rules.tower last limit levels).expression floor rest = .ok (e, rest') →
            rest' <:+ tokens) ∧
    ∀ e env s, Expr.Reachable env (Expr.start e) s →
      Expr.attemptTurn env s = some (Expr.turn env s) := by
  refine ⟨fun hreport => ?_, fun h => ⟨evaluate_of_unreportable h limits source,
      holds_of_unreportable h limits source⟩, ?_, fun tokens rest last hlast hrest =>
      ⟨Expr.getElem?_currentIndex hlast hrest, fun limit levels floor e rest' h => ?_⟩,
    fun e env s => Expr.Reachable.attemptTurn_eq⟩
  · cases houtcome : (evaluate limits source supplied).outcome with
    | ok v =>
      obtain ⟨hholds, hwarnings⟩ := holds_of_value houtcome
      exact .inl ⟨v, rfl, hholds, hwarnings⟩
    | error failure =>
      obtain ⟨e, rfl, hcause⟩ := exists_rejection_of_evaluate hreport houtcome
      obtain ⟨hholds, hwarnings⟩ := holds_of_rejection houtcome
      exact .inr ⟨e, hcause, rfl, hholds, hwarnings⟩
  · intro pieces rest hseg piece hpiece hkind hfault
    obtain ⟨after, hfront⟩ := hseg.1.exists_front hpiece
    exact hfront.exists_float hkind hfault
  · exact ((Expr.Rules.tower_leaveEnds levels).expression floor rest e rest' h).trans hrest

/-- The tree of `a / b`. -/
def Expr.quotient : Expr := .binary .divide (.ident "a") (.ident "b")

/-- An environment in which `b` counts as zero. -/
def Environment.zeroDivisor : Environment :=
  ⟨[("a", .number Binary64.one), ("b", .boolean false)]⟩

/-- A division by zero has a value and a truth, in a turn that finds its result; a numeral in a
source is read, and the end of a stream is found by its index. With a key that cannot be written
neither the division nor its condition has an outcome of these sorts. -/
theorem quotient_documented :
    ¬Environment.Unreportable Environment.zeroDivisor.toDatum ∧
    (∃ v, (evaluate Limits.default "a / b" Environment.zeroDivisor.toDatum).outcome = .ok v ∧
      (holds Limits.default "a / b" Environment.zeroDivisor.toDatum).outcome = .ok v.toBoolean ∧
      (holds Limits.default "a / b" Environment.zeroDivisor.toDatum).warnings = []) ∧
    (Token.Segmentation "1.5".toList [⟨.number, ['1', '.', '5']⟩] [] ∧
      ∃ x, Numeral.readFloat? ['1', '.', '5'] = some x) ∧
    [Token.mk .eof (.text "") 0][Expr.currentIndex [Token.mk .eof (.text "") 0] 0]? =
      some (Expr.current (Token.mk .eof (.text "") 0) []) ∧
    Expr.Reachable Environment.zeroDivisor Expr.quotient.start
      ⟨[.binary .divide], [.boolean false, .number Binary64.one]⟩ ∧
    Expr.attemptTurn Environment.zeroDivisor
        ⟨[.binary .divide], [.boolean false, .number Binary64.one]⟩ =
      some (.next ⟨[], [BinaryOp.divide.apply (.number Binary64.one) (.boolean false)]⟩) ∧
    Environment.Unreportable (.dictionary [(.leastUnwritten, .integer 1)]) ∧
    (evaluate Limits.default "a / b" (.dictionary [(.leastUnwritten, .integer 1)])).outcome =
      .error (.misuse (.longInteger none)) := by
  obtain ⟨houtcome, _, _, hindex, hturns⟩ := evaluation_documented Limits.default "a / b"
    Environment.zeroDivisor.toDatum
  have henv : Environment.ofDatum Environment.zeroDivisor.toDatum =
      .ok Environment.zeroDivisor := rfl
  have hvalue : (evaluate Limits.default "a / b" Environment.zeroDivisor.toDatum).outcome =
      .ok (BinaryOp.divide.apply (.number Binary64.one) (.boolean false)) := by
    have hcompile : (Rule.compile Limits.default "a / b").outcome = .ok ⟨"a / b", Expr.quotient⟩ :=
      rfl
    rw [evaluate_of_compile hcompile, Rule.run, henv]
    change Expr.run Environment.zeroDivisor Expr.quotient.start = _
    rw [Expr.run_start]
    rfl
  have hseg : Token.Segmentation "1.5".toList [⟨.number, ['1', '.', '5']⟩] [] := by
    have hrun : Token.MaximalRun Token.isNumberChar ['.', '5'] [] :=
      ⟨by simp [Token.isNumberChar], by simp⟩
    refine ⟨.piece rfl (.number rfl hrun) (.done []), ?_⟩
    intro piece rest htext hfront
    exact hfront.text_ne_nil (List.append_eq_nil_iff.1 htext.symm).1
  have hreach : Expr.Reachable Environment.zeroDivisor Expr.quotient.start
      ⟨[.binary .divide], [.boolean false, .number Binary64.one]⟩ :=
    .next (.next (.next .refl rfl) rfl) rfl
  have hreport : ¬Environment.Unreportable Environment.zeroDivisor.toDatum := by
    rw [Environment.unreportable_iff, henv]
    rintro ⟨⟩
  have hunreportable := Environment.unreportable_leastUnwritten (.integer 1) []
  refine ⟨hreport, (houtcome hreport).resolve_right ?_, ⟨hseg, ?_⟩,
    (hindex [Token.mk .eof (.text "") 0] [] _ rfl List.nil_suffix).1, hreach,
    hturns _ _ _ hreach, hunreportable,
    ((evaluation_documented Limits.default "a / b" _).2.1 hunreportable).1⟩
  · rintro ⟨e, _, hrejected, _⟩
    rw [hvalue] at hrejected
    contradiction
  · exact (evaluation_documented Limits.default "1.5" .null).2.2.1 _ _ hseg _
      List.mem_cons_self rfl (by decide)

/-- With an integer of too many digits for a key, an evaluation has neither a value nor a documented
rejection, and its condition has no answer. -/
theorem unwrittenKey_undocumented :
    ¬((∃ v, (evaluate Limits.default "1"
          (.dictionary [(.leastUnwritten, .integer 1)])).outcome = .ok v) ∨
        ∃ e, e.cause.IsSpecific ∧ (evaluate Limits.default "1"
          (.dictionary [(.leastUnwritten, .integer 1)])).outcome = .error (.rejected e)) ∧
      ¬∃ b, (holds Limits.default "1"
        (.dictionary [(.leastUnwritten, .integer 1)])).outcome = .ok b := by
  have h := Environment.unreportable_leastUnwritten (.integer 1) []
  rw [evaluate_of_unreportable h, (holds_of_unreportable h _ _).1]
  refine ⟨?_, nofun⟩
  rintro (⟨v, hv⟩ | ⟨e, _, he⟩)
  · contradiction
  · cases he

end Criterion
