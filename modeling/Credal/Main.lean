import Credal.CommandLine.Run
import Credal.Exact.Enclosed
import Credal.Solver.Reply

/-!
# The program

Arguments, environment and files come from outside, and the solver's reply to the request comes
from standard input. Everything else is `plan` and `Job.report?`.
-/

namespace Credal.Program

/-- What stands at a path. -/
def entryAt (path : String) : IO Entry := do
  match ← (IO.FS.readFile path).toBaseIO with
  | .ok text => pure (.text text)
  | .error (.inappropriateType _ code _) => pure (if code = 21 then .directory else .beyondFile)
  | .error (.invalidArgument _ code _) => pure (if code = 36 then .tooLong else .missing)
  | .error _ => pure .missing

/-- The files that a command line names. -/
def filesOf (words : List String) : IO Files := do
  let paths := match parseArguments words with
    | .ok a => (a.file :: a.evaluate.filterMap Given.value?).map normalPath
    | .error _ => []
  let entries ← paths.mapM fun path => do pure (path, ← entryAt path)
  pure fun path => (entries.lookup path).getD .missing

/-- The environment variables that settings are read from. -/
def environment : IO Environment := do
  let names := ["PRSAT_TIMEOUT_MS", "PRSAT_CANCEL_GRACE_MS", "PRSAT_DEBUG"]
  let values ← names.mapM fun name => do pure (name, ← IO.getEnv name)
  pure fun name => (values.lookup name).join

/-- The usage. -/
def usage : String :=
  "usage: prsat [-h] [--regular] [--timeout TIMEOUT] [--emit-smtlib] [--eval EXPR.json] "
    ++ "[--log-level \x7bDEBUG,INFO,WARNING,ERROR\x7d] file"

/-- Prints a report; its exit code. -/
def printReport (r : Report) : IO UInt32 := do
  match r.ending with
  | .refused .help => IO.println usage
  | .refused (.usage _) => IO.eprintln usage
  | _ => pure ()
  r.lines.forM fun line => IO.println line
  match r.complaint? with
  | some text => IO.eprintln text
  | none => pure ()
  pure (UInt32.ofNat (r.exitCode?.getD 1))

/-- The host of the program. -/
def host : Host := ⟨0xFFFFFFFFF, .enclosing⟩

/-- Runs a plan. -/
def runPlan : Plan → IO UInt32
  | .report r => printReport r
  | .job j => do
    let reply := readReply (← (← IO.getStdin).readToEnd)
    match (j.report? host { reply }).1 with
    | some r => printReport r
    | none => pure 1

end Credal.Program

/-- The command line program. -/
def main (words : List String) : IO UInt32 := do
  let (settings, fault) := Credal.Settings.initial.reload (← Credal.Program.environment)
  match fault with
  | some f =>
    IO.eprintln f.message
    pure 1
  | none =>
    let files ← Credal.Program.filesOf words
    Credal.Program.runPlan (Credal.plan settings files words)
