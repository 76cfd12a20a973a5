import Credal.CommandLine.Report

/-!
# Runs

A run reads the files that its arguments name and either ends without a solver or sets it a job.
The report of a job is made from what the solver does with it.

* `Plan`, `plan`: a report, or a job for the solver;
* `Job.problem?`, `Job.report?`: the problem of a job, and its report.
-/

namespace Credal

/-- What a solver is needed for. -/
structure Job where
  options : Options
  /-- How many milliseconds a cancelled solve has to stop. -/
  grace : Nat
  constraints : List Constraint
  /-- What is evaluated against a solution. -/
  asked : List Node

/-- How a run goes on after its files are read. -/
inductive Plan where
  | report (r : Report)
  | job (j : Job)

/-- The nodes of a file: those of a list, or a single one. -/
def readNodes (files : Files) (path : String) : Except RunFault (List Node) := do
  let text ← asFault .file (files.read path)
  match Json.read text with
  | .error .malformed => .error (.notDocument path)
  | .error (.tooLong digits) => .error (.tree (.notInteger (.tooLong digits)))
  | .ok (.array items) => asFault .tree (items.mapM Node.ofJson)
  | .ok item => do .ok [← asFault .tree (Node.ofJson item)]

/-- The value of a flag, which must not have been dropped. -/
def Given.get {α : Type} (f : Flag) : Given α → Except RunFault α
  | .value a => .ok a
  | .dropped => .error (.dropped f)

/-- The constraints of the problem file and the nodes of the other files. -/
def readInputs (files : Files) (a : Arguments) :
    Except RunFault (List Constraint × List Node) := do
  let text ← asFault .file (files.read a.file)
  let cs ← asFault .tree (loadConstraints text)
  let asked ← a.evaluate.mapM fun path => do readNodes files (← path.get .evaluate)
  .ok (cs, asked.flatten)

/-- The report that prints the request for constraints. -/
def requestReport (regular : Bool) (cs : List Constraint) : Report :=
  match Problem.ofConstraints? regular cs with
  | .error f => .ofFault (.solve (.encode f))
  | .ok p => ⟨p.lines.map (·.text), .satisfiable⟩

/-- The problem file must be there. The log level is looked at only if not everything is logged
    anyway. -/
def Arguments.check (settings : Settings) (files : Files) (a : Arguments) :
    Except RunFault Unit := do
  if !(← asFault .lookUp (files.contains a.file)) then .error (.noFile a.file)
  if !settings.debug then
    let _ ← a.logLevel.get .logLevel

/-- The options of a solve. -/
def Arguments.options (settings : Settings) (a : Arguments) : Except RunFault Options := do
  let timeLimit ← a.timeLimit.mapM (Given.get .timeLimit)
  asFault .option (settings.options a.regular timeLimit)

/-- The plan for arguments, or the fault that ends the run. -/
def Arguments.plan? (settings : Settings) (files : Files) (a : Arguments) :
    Except RunFault Plan := do
  a.check settings files
  let (cs, asked) ← readInputs files a
  if a.requestOnly then .ok (.report (requestReport a.regular cs))
  else .ok (.job ⟨← a.options settings, settings.grace, cs, asked⟩)

/-- The plan for arguments. -/
def Arguments.plan (settings : Settings) (files : Files) (a : Arguments) : Plan :=
  match a.plan? settings files with
  | .ok p => p
  | .error f => .report (.ofFault f)

/-- The plan for the words of a command line. -/
def plan (settings : Settings) (files : Files) (words : List String) : Plan :=
  match parseArguments words with
  | .error r => .report ⟨[], .refused r⟩
  | .ok a => a.plan settings files

namespace Job

/-- The problem of a job. -/
def problem? (j : Job) : Except EncodeFault Problem :=
  Problem.ofConstraints? j.options.regular j.constraints

/-- The report of a job whose solve has ended. -/
def reportOf (sys : AlgebraSystem) (j : Job) : Except GraceFault (Finish Solved) → Report
  | .ok (.completed (.ok s) _) => s.report sys j.asked
  | .ok (.completed (.error f) _) => .ofFault (.solve f)
  | .ok .cancelled | .ok .abandoned => ⟨["cancelled"], .undecided⟩
  | .error f => .ofFault (.grace f)

/-- The report of a job and the requests that were made for it; no report if the solver neither
    answers nor is cancelled. -/
def report? (host : Host) (j : Job) (reaction : Reaction) : Option Report × List Request :=
  let start : Transcript := ⟨{ options := j.options }, [reaction], [], none⟩
  let (result, t) := start.race host false (.whole j.grace) j.problem?
  (result.map (j.reportOf host.algebra), t.requests.reverse)

end Job

end Credal
