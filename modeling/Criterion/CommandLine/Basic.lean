import Criterion.CommandLine.Arguments
import Criterion.CommandLine.Display
import Criterion.Expr.Basic
import Criterion.Failure.Cause
import Criterion.Limits.Basic
import Criterion.Limits.File
import Criterion.Rule

/-!
# The command line

Three commands work on one expression: `eval` evaluates it, `check` parses it and reports on it,
`tokens` shows its tokens. The limits come from a file and from the process environment, which
overrides the file, and are settled before the arguments of the command are looked at. Reports go
through a screen, which may lay them out in its own way; results are printed as they are.
-/

namespace Criterion.CommandLine

/-- How a run ends. -/
inductive Outcome where
  /-- With an exit code and what is written to the two outputs. -/
  | finished (code : Nat) (out err : String) (records : List Record)
  /-- With a complaint about how the program was called. -/
  | usage (message : String)
  /-- With a failure that no command reports. -/
  | failed (failure : Failure)

/-- The exit code. -/
def Outcome.exitCode : Outcome → Nat
  | finished code .. => code
  | usage _ => 2
  | failed _ => 1

/-- What is printed as the result. -/
def Outcome.printed : Outcome → String
  | finished _ out .. => out
  | usage _ => ""
  | failed _ => ""

/-- The commands. -/
inductive Command where
  | eval
  | check
  | tokens
  deriving DecidableEq, Repr

/-- The command with a given name. -/
def Command.ofName? : String → Option Command
  | "eval" => some .eval
  | "check" => some .check
  | "tokens" => some .tokens
  | _ => none

/-- The options before the command. -/
def generalOptions : List OptionSpec :=
  [⟨"--version", some 'V', false⟩, ⟨"--verbose", some 'v', false⟩, ⟨"--config", some 'c', true⟩]

/-- The options of a command. -/
def Command.options : Command → List OptionSpec
  | eval => [⟨"--var", none, true⟩, ⟨"--json", none, false⟩]
  | check => []
  | tokens => []

/-- The version of the program. -/
def version : String := "0.3.0"

/-- What the program is called for. -/
inductive Invocation where
  | version
  | usage (message : String)
  | command (config : Option String) (verbose : Bool) (cmd : Command) (args : List String)
  deriving DecidableEq, Repr

/-- What the words after the general options ask for. Words that name no command are read once more
as general options, since options may hide behind two dashes. -/
def Invocation.ofWords (given : Given) (words : List String) : Invocation :=
  match words with
  | [] => .usage "Missing command."
  | name :: args =>
    match Command.ofName? name with
    | some cmd =>
      .command (valuesOf given "--config").getLast? (isGiven given "--verbose") cmd args
    | none =>
      match takeOptions generalOptions false [] [] words with
      | some (hidden, _) =>
        if isGiven hidden "--version" then .version else .usage "No such command."
      | none => .usage "No such option."

/-- What a list of arguments asks for. -/
def Invocation.ofArguments (args : List String) : Invocation :=
  match takeOptions generalOptions false [] [] args with
  | none => .usage "No such option."
  | some (given, words) =>
    if isGiven given "--version" then .version else .ofWords given words

/-- The limits in force: those of the file, if one is given, with those of the environment in place
of them. -/
def limitsFor (config : Option (Option String)) (environ : String → Option String) :
    Except Failure Limits := do
  let base ← match config with
    | none => Except.ok Limits.default
    | some file => Limits.ofFile file
  base.override environ

/-- A value as a field of a JSON object; what JSON has no number for is written as a text. -/
def jsonValue : Value → String
  | .boolean b => if b then "true" else "false"
  | .number x =>
    match Binary64.view x with
    | .finite .. => Binary64.literalText x
    | _ => "\"" ++ Binary64.displayText x ++ "\""

/-- A result as a JSON object. -/
def jsonText (v : Value) : String :=
  "\x7b\"kind\": \"" ++ v.kind.name ++ "\", \"value\": " ++ jsonValue v ++ "\x7d"

section Reports

variable (screen : String → String)

/-- The report of a rejected expression. -/
def report (e : Rejection) (source : String) (records : List Record) : Outcome :=
  .finished 1 "" (screen ("Error: " ++ e.formatWithSource source) ++ "\n") records

/-- The outcome of a command that has one result. -/
def conclude {α : Type} (source : String) (logged : Logged α) (render : α → String) : Outcome :=
  match logged.outcome with
  | .ok a => .finished 0 (render a) "" logged.records
  | .error (.rejected e) => report screen e source logged.records
  | .error failure => .failed failure

/-- Evaluate an expression under bindings. -/
def runEval (limits : Limits) (source : String) (bindings : List String) (json : Bool) :
    Outcome :=
  match bindings.mapM Binding.parse with
  | .error e => .usage e.message
  | .ok bindings =>
    conclude screen source (evaluate limits source (Binding.toDatum bindings)) fun v =>
      (if json then jsonText v else v.text) ++ "\n"

/-- The report on an expression that parses. -/
def checkReport (rule : Rule) : String :=
  let names := if rule.variableNames.isEmpty then "-" else ", ".intercalate rule.variableNames
  screen ("OK\n  Parsed:    " ++ rule.expr.render ++ "\n  Variables: " ++ names
    ++ "\n  Result:    " ++ rule.kind.name ++ "\n")

/-- Parse an expression and report on it. -/
def runCheck (limits : Limits) (source : String) : Outcome :=
  conclude screen source (Rule.compile limits source) (checkReport screen)

/-- Show the tokens of an expression. -/
def runTokens (limits : Limits) (source : String) : Outcome :=
  conclude screen source (.of (Token.ofSource source limits.maxLength)) fun tokens =>
    "\n".intercalate (Table.lines tokens) ++ "\n"

/-- Run a command on its arguments. -/
def Command.run (cmd : Command) (limits : Limits) (args : List String) : Outcome :=
  match takeOptions cmd.options true [] [] args with
  | none => .usage "No such option."
  | some (given, [source]) =>
    match cmd with
    | eval => runEval screen limits source (valuesOf given "--var") (isGiven given "--json")
    | check => runCheck screen limits source
    | tokens => runTokens screen limits source
  | some (_, []) => .usage "Missing argument 'EXPRESSION'."
  | some _ => .usage "Got unexpected extra arguments."

end Reports

/-- Run the program on its arguments, with a way to read files, the process environment and a
screen, which is one of unlimited width if no other is given. -/
def run (textOfFile : String → Option String) (environ : String → Option String)
    (args : List String) (screen : String → String := onScreen) : Outcome :=
  match Invocation.ofArguments args with
  | .version => .finished 0 ("safecond " ++ version ++ "\n") "" []
  | .usage message => .usage message
  | .command config _ cmd args =>
    match limitsFor (config.map textOfFile) environ with
    | .ok limits => cmd.run screen limits args
    | .error (.invalid problems) =>
      .usage ("Invalid limits configuration: " ++ (Failure.invalid problems).message)
    | .error .malformedDocument => .usage "Invalid limits configuration"
    | .error failure => .failed failure

end Criterion.CommandLine
