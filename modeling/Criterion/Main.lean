import Criterion.CommandLine.Basic

/-!
# The program

The outer layer reads the file and the environment variables that the arguments ask for and writes
the outcome. What the outcome is, `CommandLine.run` decides.
-/

namespace Criterion.CommandLine

/-- The text of a file; a file that does not exist has none. -/
def fileText (path : String) : IO (Option String) := do
  try
    return some (← IO.FS.readFile path)
  catch
    | .noFileOrDirectory .. => return none
    | e => throw e

/-- The file that an invocation refers to, and whether it wants to see the records. -/
def Invocation.wants : Invocation → Option String × Bool
  | .command config verbose _ _ => (config, verbose)
  | _ => (none, false)

/-- Write an outcome and give the exit code. -/
def deliver (verbose : Bool) (outcome : Outcome) : IO UInt32 := do
  let stderr ← IO.getStderr
  match outcome with
  | .finished _ _ err records =>
    if verbose then
      for record in records do
        stderr.putStrLn (record.origin ++ " - " ++ record.level.name ++ " - " ++ record.message)
    (← IO.getStdout).putStr outcome.printed
    stderr.putStr err
  | .usage message => stderr.putStrLn message
  | .failed failure => stderr.putStrLn failure.message
  return UInt32.ofNat outcome.exitCode

end Criterion.CommandLine

open Criterion CommandLine

/-- Run the program. -/
def main (args : List String) : IO UInt32 := do
  let (config, verbose) := (Invocation.ofArguments args).wants
  let file ← match config with
    | some path => fileText path
    | none => pure none
  let length ← IO.getEnv Limits.lengthVariable
  let depth ← IO.getEnv Limits.depthVariable
  let environ (name : String) : Option String :=
    if name = Limits.lengthVariable then length
    else if name = Limits.depthVariable then depth
    else none
  deliver verbose (run (fun _ => file) environ args)
