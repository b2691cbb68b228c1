import Criterion.Proofs.Rule.Outcome
import Criterion.Proofs.Token.Blanks

/-!
# What the rejection of a reserved name discloses

A source is cut into the same pieces before a word, whichever word that is and whatever stands
behind it. A reserved word therefore is the first offence of a source exactly if another one in its
place is, and as the message of the rejection does not name it, what a caller and the warnings get
to know is settled by the text before the word.
-/

namespace Criterion

/-- What a rejection tells its caller: under which name it is reported, its message, which is the
only argument that it is raised with, and its position. The cause is not part of it. -/
structure Disclosure where
  label : String
  message : String
  arguments : List String
  pos : Option Int
  deriving DecidableEq

/-- What a rejection discloses. -/
def Rejection.disclosure (e : Rejection) : Disclosure :=
  ⟨e.cause.label, e.message, [e.message], e.pos⟩

/-- Rejections that disclose the same leave the same record. -/
theorem Record.rejected_congr {e e' : Rejection} (h : e.disclosure = e'.disclosure) :
    Record.rejected e = Record.rejected e' := by
  have hlabel : e.cause.label = e'.cause.label := congrArg Disclosure.label h
  have hmessage : e.message = e'.message := congrArg Disclosure.message h
  rw [Record.rejected, Record.rejected, hlabel, hmessage]

namespace Token

variable {c d : Char} {front rest text : List Char} {piece : Piece} {before : List Piece}
  {name : String} {p q : String} {maxLength : Int}

/-! ## What stands before a word -/

private theorem not_isNumberChar_of_isWordStart (h : isWordStart c) : isNumberChar c = false := by
  have hdot : c ≠ '.' := by
    rintro rfl
    contradiction
  simp [isNumberChar, hdot, not_isDigit_of_isWordStart h]

private theorem IsOperator.not_mem_of_isWordStart {symbol : List Char} (h : IsOperator symbol)
    (hc : isWordStart c) : c ∉ symbol := by
  have hlisted : (operatorSymbols.map String.toList).all
      (fun symbol => symbol.all fun c => !isWordStart c) = true := rfl
  intro hmem
  have hno := List.all_eq_true.1 (List.all_eq_true.1 hlisted symbol (mem_operatorSymbols_iff.2 h))
    c hmem
  rw [hc] at hno
  contradiction

/-- A piece before a word keeps its place when another word begins there. -/
theorem Front.of_before_word (h : Front piece (front ++ c :: rest)) (hc : isWordStart c)
    (hd : isWordStart d) (rest' : List Char) : Front piece (front ++ d :: rest') := by
  cases h with
  | blank h => exact .blank h
  | number h hrun => exact .number h (hrun.of_before (not_isNumberChar_of_isWordStart hd) rest')
  | word h hrun =>
    refine .word h ⟨hrun.1, ?_⟩
    cases front with
    | nil =>
      have hno : isWordChar c = false := hrun.2 c rfl
      rw [isWordChar_of_isWordStart hc] at hno
      contradiction
    | cons x front => exact hrun.2
  | opening => exact .opening
  | closing => exact .closing
  | operator h hlongest =>
    refine .operator h fun longer hlonger hprefix => hlongest longer hlonger ?_
    rw [← List.append_assoc] at hprefix ⊢
    exact (prefix_of_not_mem hprefix (hlonger.not_mem_of_isWordStart hd)).trans
      (List.prefix_append _ _)

/-- The pieces before a word stay the pieces of a text when another word begins there. -/
theorem Cut.of_before_word (hcut : Cut text before (c :: rest)) (hc : isWordStart c)
    (hd : isWordStart d) (rest' : List Char) :
    Cut (before.flatMap Piece.text ++ d :: rest') before (d :: rest') := by
  generalize hlast : c :: rest = last at hcut
  induction hcut with
  | done => exact .done _
  | @piece text middle last piece pieces htext hfront hcut ih =>
    subst hlast
    rw [hcut.text_eq] at hfront
    rw [List.flatMap_cons, List.append_assoc]
    exact .piece rfl (hfront.of_before_word hc hd rest') (ih rfl)

/-! ## Reserved words -/

/-- Every reserved name is a word. -/
theorem exists_word_of_reserved (h : name ∈ reservedNames) :
    ∃ c run, name.toList = c :: run ∧ isWordStart c ∧ ∀ d ∈ run, isWordChar d := by
  have hwords : reservedNames.all (fun name => name.toList.head?.any isWordStart &&
      name.toList.tail.all isWordChar) = true := by decide +kernel
  have hword := List.all_eq_true.1 hwords name h
  cases hname : name.toList with
  | nil =>
    rw [hname] at hword
    contradiction
  | cons c run =>
    rw [hname, Bool.and_eq_true] at hword
    exact ⟨c, run, rfl, hword.1, List.all_eq_true.1 hword.2⟩

/-- A text before which a source has no offence, and with a reserved word behind it, is rejected for
that word. -/
theorem ofSource_of_cut_before (hcut : Cut (p.toList ++ (name.toList ++ q.toList)) before
      (name.toList ++ q.toList)) (hbefore : ∀ piece ∈ before, piece.fault? = none)
    (hname : name ∈ reservedNames) (hq : ∀ c ∈ q.toList.head?, isWordChar c = false)
    (hlength : (p ++ name ++ q).length ≤ maxLength) :
    ofSource (p ++ name ++ q) maxLength =
      .error (.rejected ⟨.blockedIdentifier name, some p.length⟩) := by
  obtain ⟨c, run, hword, hc, hrun⟩ := exists_word_of_reserved hname
  have hfront : Front ⟨.word, name.toList⟩ q.toList := by
    rw [hword]
    exact .word hc ⟨hrun, hq⟩
  have hfault : Piece.fault? ⟨.word, name.toList⟩ = some (.blockedIdentifier name) := by
    rw [Piece.fault?, String.ofList_toList, if_pos hname]
  have hextent : extent before = p.length := by
    rw [extent, ← List.append_cancel_right hcut.text_eq, String.length_toList]
  obtain ⟨after, last, hafter, hstuck⟩ := exists_segmentation q.toList
  have hwhole : Segmentation (p ++ name ++ q).toList (before ++ ⟨.word, name.toList⟩ :: after)
      last := by
    rw [String.toList_append, String.toList_append, List.append_assoc]
    exact ⟨hcut.append (.piece rfl hfront hafter), hstuck⟩
  rw [← hextent]
  exact ofSource_of_offence hlength hwhole (.fault rfl hbefore hfault)

/-- Where a source is rejected for a reserved word, the text before it has no offence. -/
theorem exists_cut_of_blocked {rest : String} (hlength : (p ++ rest).length ≤ maxLength)
    (h : ofSource (p ++ rest) maxLength =
      .error (.rejected ⟨.blockedIdentifier name, some p.length⟩)) :
    ∃ before, Cut (p.toList ++ rest.toList) before rest.toList ∧
      ∀ piece ∈ before, piece.fault? = none := by
  obtain ⟨pieces, last, hseg⟩ := exists_segmentation (p ++ rest).toList
  have hoffence := (ofSource_eq_error_iff hlength hseg).1 h
  generalize hfailure :
    Failure.rejected ⟨.blockedIdentifier name, some p.length⟩ = failure at hoffence
  cases hoffence with
  | character _ _ =>
    injection hfailure with hrejection
    injection hrejection with hcause
    contradiction
  | @fault before after piece cause hpieces hbefore _ =>
    injection hfailure with hrejection
    injection hrejection with _ hpos
    have hextent : p.toList.length = (before.flatMap Piece.text).length := by
      rw [String.length_toList]
      exact Int.ofNat.inj (Option.some.inj hpos)
    obtain ⟨hcut, _⟩ := hseg
    rw [hpieces, String.toList_append] at hcut
    obtain ⟨middle, hfirst, _⟩ := hcut.split
    obtain ⟨_, rfl⟩ := List.append_inj hfirst.text_eq hextent
    exact ⟨before, hfirst, hbefore⟩

/-- A reserved word is rejected where another one is in its place. -/
theorem ofSource_of_blocked {n n' q' : String} (hn : n ∈ reservedNames) (hn' : n' ∈ reservedNames)
    (hq' : ∀ c ∈ q'.toList.head?, isWordChar c = false)
    (hlength : (p ++ n ++ q).length ≤ maxLength) (hlength' : (p ++ n' ++ q').length ≤ maxLength)
    (h : ofSource (p ++ n ++ q) maxLength =
      .error (.rejected ⟨.blockedIdentifier name, some p.length⟩)) :
    ofSource (p ++ n' ++ q') maxLength =
      .error (.rejected ⟨.blockedIdentifier n', some p.length⟩) := by
  rw [String.append_assoc] at hlength h
  obtain ⟨before, hcut, hbefore⟩ := exists_cut_of_blocked hlength h
  obtain ⟨c, run, hword, hc, _⟩ := exists_word_of_reserved hn
  obtain ⟨d, run', hword', hd, _⟩ := exists_word_of_reserved hn'
  have htext : before.flatMap Piece.text = p.toList :=
    (List.append_cancel_right hcut.text_eq).symm
  rw [String.toList_append, hword, List.cons_append] at hcut
  have hcut' := hcut.of_before_word hc hd (run' ++ q'.toList)
  rw [htext, ← List.cons_append, ← hword'] at hcut'
  exact ofSource_of_cut_before hcut' hbefore hn' hq' hlength'

end Token

open Token

variable {limits : Limits} {source : String} {failure : Failure}

/-- A source that is rejected in lexing is rejected alike in an evaluation, unless its variables are
refused. -/
theorem evaluate_of_lexing (h : Token.ofSource source limits.maxLength = .error failure)
    (supplied : Datum) :
    (evaluate limits source supplied).outcome =
      match Environment.ofDatum supplied with
      | .ok _ => .error failure
      | .error unsupported => .error unsupported := by
  have hparse : Expr.parse limits source = .error failure := by
    rw [Expr.parse, Expr.ofSource, h]
    rfl
  rw [evaluate_of_not_compiled (Rule.compile_eq_error_iff.2 hparse)]
  rfl

/-- No rejection tells which reserved name stands in a source. If a source is rejected for a
reserved word at a position, so is every source that begins in the same way and has a reserved word
there, whatever stands behind it. The rejections disclose the same, of the lexer and of an
evaluation with whatever variables; as a condition neither source holds, and the two leave the same
warning. Where a key among the variables cannot be written in its report, both sources fail for that
key alone and leave no warning. -/
theorem reserved_names_alike {p n n' q q' name : String} {maxLength : Int}
    (hn : n ∈ reservedNames) (hn' : n' ∈ reservedNames)
    (hq : ∀ c ∈ q.toList.head?, isWordChar c = false)
    (hq' : ∀ c ∈ q'.toList.head?, isWordChar c = false)
    (hlength : (p ++ n ++ q).length ≤ maxLength) (hlength' : (p ++ n' ++ q').length ≤ maxLength)
    (h : Token.ofSource (p ++ n ++ q) maxLength =
      .error (.rejected ⟨.blockedIdentifier name, some p.length⟩)) :
    (∃ e e', Token.ofSource (p ++ n ++ q) maxLength = .error (.rejected e) ∧
      Token.ofSource (p ++ n' ++ q') maxLength = .error (.rejected e') ∧
      e.cause = .blockedIdentifier n ∧ e'.cause = .blockedIdentifier n' ∧
      e.pos = some (p.length : Int) ∧ e.disclosure = e'.disclosure) ∧
    ∀ limits : Limits, limits.maxLength = maxLength → ∀ supplied,
      (¬Environment.Unreportable supplied → ∃ e e',
        (evaluate limits (p ++ n ++ q) supplied).outcome = .error (.rejected e) ∧
        (evaluate limits (p ++ n' ++ q') supplied).outcome = .error (.rejected e') ∧
        e.disclosure = e'.disclosure ∧
        (holds limits (p ++ n ++ q) supplied).outcome = .ok false ∧
        (holds limits (p ++ n' ++ q') supplied).outcome = .ok false ∧
        (holds limits (p ++ n ++ q) supplied).warnings = [Record.rejected e] ∧
        (holds limits (p ++ n' ++ q') supplied).warnings = [Record.rejected e]) ∧
      (Environment.Unreportable supplied → ∃ failure,
        (evaluate limits (p ++ n ++ q) supplied).outcome = .error failure ∧
        (evaluate limits (p ++ n' ++ q') supplied).outcome = .error failure ∧
        (holds limits (p ++ n ++ q) supplied).outcome = .error failure ∧
        (holds limits (p ++ n' ++ q') supplied).outcome = .error failure ∧
        (holds limits (p ++ n ++ q) supplied).warnings = [] ∧
        (holds limits (p ++ n' ++ q') supplied).warnings = []) := by
  have hfirst := ofSource_of_blocked hn hn hq hlength hlength h
  have hsecond := ofSource_of_blocked hn hn' hq' hlength hlength' h
  refine ⟨⟨_, _, hfirst, hsecond, rfl, rfl, rfl, rfl⟩, ?_⟩
  rintro limits rfl supplied
  refine ⟨fun hreport => ?_, fun hreport => ⟨_, evaluate_of_unreportable hreport limits _,
    evaluate_of_unreportable hreport limits _, (holds_of_unreportable hreport limits _).1,
    (holds_of_unreportable hreport limits _).1, (holds_of_unreportable hreport limits _).2,
    (holds_of_unreportable hreport limits _).2⟩⟩
  have hevaluated := evaluate_of_lexing hfirst supplied
  have hevaluated' := evaluate_of_lexing hsecond supplied
  obtain ⟨e, e', he, he', halike⟩ : ∃ e e',
      (evaluate limits (p ++ n ++ q) supplied).outcome = .error (.rejected e) ∧
      (evaluate limits (p ++ n' ++ q') supplied).outcome = .error (.rejected e') ∧
      e.disclosure = e'.disclosure := by
    cases henv : Environment.ofDatum supplied with
    | ok env =>
      rw [henv] at hevaluated hevaluated'
      exact ⟨_, _, hevaluated, hevaluated', rfl⟩
    | error unsupported =>
      obtain ⟨key, typeName, rfl⟩ := Environment.rejected_of_ofDatum henv hreport
      rw [henv] at hevaluated hevaluated'
      exact ⟨_, _, hevaluated, hevaluated', rfl⟩
  obtain ⟨hholds, hwarnings⟩ := holds_of_rejection he
  obtain ⟨hholds', hwarnings'⟩ := holds_of_rejection he'
  rw [← Record.rejected_congr halike] at hwarnings'
  exact ⟨e, e', he, he', halike, hholds, hholds', hwarnings, hwarnings'⟩

/-- Behind an operator a name that the object model reserves and one that the host does are rejected
alike, one at the end of its source and the other before a character that begins no token. -/
theorem selfAndEval_alike :
    "self" ∈ reservedNames ∧ "eval" ∈ reservedNames ∧
      (∀ c ∈ "".toList.head?, isWordChar c = false) ∧
      (∀ c ∈ "@ 1.2.3".toList.head?, isWordChar c = false) ∧
      (("1 + " ++ "self" ++ "").length : Int) ≤ 1000 ∧
      (("1 + " ++ "eval" ++ "@ 1.2.3").length : Int) ≤ 1000 ∧
      Token.ofSource ("1 + " ++ "self" ++ "") 1000 = reject (.blockedIdentifier "self") (some 4) ∧
      (Limits.default.maxLength : Int) = 1000 ∧
      (holds Limits.default ("1 + " ++ "self" ++ "") .null).warnings =
        (holds Limits.default ("1 + " ++ "eval" ++ "@ 1.2.3") .null).warnings := by
  have hself : "self" ∈ reservedNames := by decide
  have heval : "eval" ∈ reservedNames := by decide
  have hend : ∀ c ∈ "".toList.head?, isWordChar c = false := nofun
  have hat : ∀ c ∈ "@ 1.2.3".toList.head?, isWordChar c = false := by
    rintro _ ⟨⟩
    rfl
  have hblocked : Token.ofSource ("1 + " ++ "self" ++ "") 1000 =
      reject (.blockedIdentifier "self") (some 4) := rfl
  have hreport : ¬Environment.Unreportable .null := by
    rw [Environment.unreportable_iff]
    exact nofun
  obtain ⟨_, _, _, _, _, _, _, hwarnings, hwarnings'⟩ :=
    ((reserved_names_alike hself heval hend hat (by decide) (by decide) hblocked).2
      Limits.default rfl .null).1 hreport
  exact ⟨hself, heval, hend, hat, by decide, by decide, hblocked, rfl,
    hwarnings.trans hwarnings'.symm⟩

end Criterion
