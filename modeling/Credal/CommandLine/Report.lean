import Credal.CommandLine.Arguments
import Credal.CommandLine.Files
import Credal.Language.Tagged
import Credal.Solver.Session

/-!
# Reports

What a run prints and how it ends. A solution is printed with its constraints, the values of its
states and real variables, and what was asked to be evaluated against it. Lines that precede a fault
are printed all the same.

* `RunFault`, `Ending`, `Report`: how a run ends;
* `Report.exitCode?`, `Report.complaint?`: the code and the message that it ends with;
* `Solution.report`: the report of a solution.
-/

namespace Credal

open Credal.Number

/-! ## 1. Endings -/

/-- What ends a run early. -/
inductive RunFault where
  | noFile (path : String)
  /-- Whether the problem file is there cannot be told. -/
  | lookUp (f : FileFault)
  | file (f : FileFault)
  /-- A value that was dropped is used. -/
  | dropped (f : Flag)
  | tree (f : TreeFault)
  /-- A file of expressions is no document. -/
  | notDocument (path : String)
  | option (f : OptionFault)
  | grace (f : GraceFault)
  | solve (f : SolveFault)
  | ask (f : AskFault)
  /-- A value of the model is too long to be written. -/
  | unwritable

/-- The message of a fault, if it is one that is reported. -/
def RunFault.message? : RunFault → Option String
  | .noFile path => some ("File not found: " ++ path)
  | .lookUp _ | .dropped _ => none
  | .file f => some f.message
  | .tree f => f.message?
  | .notDocument path => some (path ++ ": invalid JSON")
  | .option f => f.message?
  | .grace f => f.message?
  | .solve f => f.message?
  | .ask f => f.message?
  | .unwritable => some unwritableText

/-- How a run ends. -/
inductive Ending where
  | satisfiable
  | undecided
  | fault (f : RunFault)
  | refused (r : Refusal)

/-- The lines that a run prints, and its end. -/
structure Report where
  lines : List String
  ending : Ending

namespace Report

/-- The exit code, none for a fault that is not reported. -/
def exitCode? (r : Report) : Option Nat :=
  match r.ending with
  | .satisfiable | .refused .help => some 0
  | .undecided => some 1
  | .fault f => f.message?.map fun _ => 2
  | .refused (.usage _) => some 2

/-- The message that a run ends with. -/
def complaint? (r : Report) : Option String :=
  match r.ending with
  | .satisfiable | .undecided | .refused .help => none
  | .fault f => f.message?.map ("Error: " ++ ·)
  | .refused (.usage f) => some ("prsat: error: " ++ f.message)

/-- The report of a fault alone. -/
def ofFault (f : RunFault) : Report := ⟨[], .fault f⟩

end Report

/-! ## 2. Solutions -/

/-- A truth value. -/
def truthText (b : Bool) : String := if b then "True" else "False"

/-- A constraint and whether it holds. -/
def checkLine (c : Constraint) (holds : Bool) : String :=
  "  [" ++ (if holds then "ok" else "FAILED") ++ "] " ++ c.text

/-- A value of the model with its double, none for a value that is too long. -/
def valueText? (name : String) (v : ModelValue) (x : Float) : Option String :=
  v.text?.map fun text => "  " ++ name ++ " = " ++ text ++ " ~ " ++ Double.sixDigits x

/-- The result of an evaluation. -/
def outcomeText {α : Type} (text : α → String) : Outcome α → String
  | .ok a => text a
  | .error .divisionByZero => "division by zero"
  | .error (.undeclared v) =>
    "undeclared: " ++ ", ".intercalate (v.reals ++ v.letters.map (·.text))

/-- Lines that are printed, and the fault that keeps more from being printed. -/
structure Printed where
  lines : List String
  fault : Option RunFault := none

namespace Printed

/-- What is printed first, and unless a fault ends it what is printed next. -/
def followedBy (first next : Printed) : Printed :=
  match first.fault with
  | some _ => first
  | none => ⟨first.lines ++ next.lines, next.fault⟩

/-- One line after the other, up to the first that cannot be written. -/
def ofLines : List (Except RunFault String) → Printed
  | [] => ⟨[], none⟩
  | .error f :: _ => ⟨[], some f⟩
  | .ok line :: rest => followedBy ⟨[line], none⟩ (ofLines rest)

/-- The report that ends with what was printed. -/
def report (p : Printed) : Report :=
  ⟨p.lines, match p.fault with
    | some f => .fault f
    | none => .satisfiable⟩

end Printed

/-- A line that may be too long to be written. -/
def lineOf (line : Option String) : Except RunFault String :=
  match line with
  | some text => .ok text
  | none => .error .unwritable

namespace Solution

/-- The lines about the states. -/
def stateLines (s : Solution) (xs : List Float) : Printed :=
  .ofLines ((s.finding.model.states.zip xs).map fun ((i, v), x) =>
    lineOf ((valueText? (RealExpr.stateName i) v x).map fun text =>
      text ++ "    (" ++ (s.problem.table.sentenceOf i).text ++ ")"))

/-- The lines about the real variables. -/
def realLines (s : Solution) (xs : List Float) : Printed :=
  .ofLines ((s.finding.model.reals.zip xs).map fun ((name, v), x) => lineOf (valueText? name v x))

/-- What is printed from doubles of a model's values, if they have any. -/
def withDoubles (xs : Except ValueFault (List Float)) (print : List Float → Printed) : Printed :=
  match xs with
  | .error f => ⟨[], some (.ask (.value f))⟩
  | .ok xs => print xs

/-- The lines of a model. -/
def modelLines (sys : AlgebraSystem) (s : Solution) : Printed :=
  let m := s.finding.model
  let checks := List.zipWith checkLine s.problem.constraints s.finding.holds
  let states := withDoubles (m.stateDoubles sys) s.stateLines
  let reals := withDoubles (m.realDoubles sys) s.realLines
  let front := Printed.followedBy ⟨"constraints:" :: checks ++ ["states:"], none⟩ states
  if m.reals.isEmpty then front else front.followedBy (.followedBy ⟨["variables:"], none⟩ reals)

/-- The result of evaluating a node. -/
def resultText (sys : AlgebraSystem) (s : Solution) : Node → Except AskFault String
  | .constraint c => do
    .ok (outcomeText truthText (← s.constraintOutcome sys Arithmetic.defaultTolerance c))
  | .real e => do .ok (outcomeText Double.text (← s.realOutcome sys e))

/-- The lines of evaluations. -/
def evaluationLines (sys : AlgebraSystem) (s : Solution) (asked : List Node) : Printed :=
  .ofLines (asked.map fun n =>
    match s.resultText sys n with
    | .error f => .error (.ask f)
    | .ok text => .ok ("  " ++ n.text ++ " => " ++ text))

/-- The report of a satisfiable problem. -/
def satReport (sys : AlgebraSystem) (s : Solution) (asked : List Node) : Report :=
  let front := Printed.followedBy ⟨["sat"], none⟩ (s.modelLines sys)
  if asked.isEmpty then front.report
  else
    (front.followedBy (.followedBy ⟨["evaluations:"], none⟩ (s.evaluationLines sys asked))).report

/-- The report of a solution, with the nodes to evaluate against it. -/
def report (sys : AlgebraSystem) (s : Solution) (asked : List Node) : Report :=
  match s.finding with
  | .sat _ _ => s.satReport sys asked
  | .unsat => ⟨["unsat"], .undecided⟩
  | .unknown reason =>
    ⟨"unknown" :: (if reason = "" then [] else ["reason: " ++ reason]), .undecided⟩

end Solution

end Credal
