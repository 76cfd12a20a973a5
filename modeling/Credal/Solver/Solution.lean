import Credal.Settings
import Credal.Solver.Answer

/-!
# Solutions

A solver's answer to a problem becomes a solution only after the original constraints have been
checked against the model that it gives.

* `SolveFault`: why there is no solution;
* `Problem.check`: which constraints hold under a model;
* `Problem.conclude`: the solution that an answer gives;
* `Solution.constraintOutcome`, `Solution.realOutcome`: further evaluation against its model.
-/

namespace Credal

open Credal.Number

/-- Why a solve gives no solution. -/
inductive SolveFault where
  | encode (f : EncodeFault)
  /-- The solver failed, with its message. -/
  | refused (text : String)
  | term (f : TermFault)
  | value (f : ValueFault)
  | assignment (f : AssignmentFault)
  /-- The model violates the constraints with these indices. -/
  | violated (failed : List Nat)

/-- The text of a list of indices. -/
def indicesText (is : List Nat) : String :=
  "[" ++ ", ".intercalate (is.map fun (i : Nat) => intText i) ++ "]"

/-- The message of a fault, if it is one that is reported. -/
def SolveFault.message? : SolveFault → Option String
  | .encode f => some f.message
  | .refused text => some ("z3 failed: " ++ text)
  | .term (.unreadable f) => some f.message
  | .term (.undecodable f) => f.message?
  | .value f => some f.message
  | .assignment f => f.message?
  | .violated failed =>
    some ("model does not satisfy constraint(s) at index " ++ indicesText failed)

/-- What a solve found. Only a satisfiable problem has a model, and with it the truth of each
    constraint. -/
inductive Finding where
  | sat (model : Model) (holds : List Bool)
  | unsat
  | unknown (reason : String)

namespace Finding

/-- The verdict of a finding. -/
def verdict : Finding → Verdict
  | .sat _ _ => .sat
  | .unsat => .unsat
  | .unknown _ => .unknown

/-- The model, empty unless the problem is satisfiable. -/
def model : Finding → Model
  | .sat m _ => m
  | .unsat | .unknown _ => ⟨[], []⟩

/-- The truth of each constraint, none unless the problem is satisfiable. -/
def holds : Finding → List Bool
  | .sat _ h => h
  | .unsat | .unknown _ => []

/-- Why the verdict is unknown. -/
def reason? : Finding → Option String
  | .unknown reason => some reason
  | .sat _ _ | .unsat => none

end Finding

/-- A problem and what a solve found. -/
structure Solution where
  problem : Problem
  finding : Finding

/-! ## 1. Checking -/

/-- A fault as another kind of fault. -/
def asFault {ε ε' α : Type} (f : ε → ε') : Except ε α → Except ε' α
  | .ok a => .ok a
  | .error e => .error (f e)

/-- Which constraints hold under a model, in exact or in double arithmetic. -/
def Problem.check (sys : AlgebraSystem) (o : Options) (p : Problem) (m : Model) :
    Except SolveFault (List Bool) := do
  if o.exact then
    let v ← asFault .value (m.assignment fun v => do .ok (Exact.finite (← v.exact)))
    asFault .assignment (validate (.exact sys) p.table v p.constraints)
  else
    let v ← asFault .value (m.assignment (·.toDouble sys))
    asFault .assignment (validate (.double o.tolerance) p.table v p.constraints)

/-- The indices from `start` on of what does not hold. -/
def failures (start : Nat) : List Bool → List Nat
  | [] => []
  | true :: rest => failures (start + 1) rest
  | false :: rest => start :: failures (start + 1) rest

/-- The finding of a satisfiable problem, if every constraint holds. -/
def Finding.ofChecks (m : Model) (holds : List Bool) : Except SolveFault Finding :=
  match failures 0 holds with
  | [] => .ok (.sat m holds)
  | failed => .error (.violated failed)

/-- The solution that an answer, or the message of a solver that failed, gives. -/
def Problem.conclude (host : Host) (o : Options) (p : Problem) : Except String Answer →
    Except SolveFault Solution
  | .error text => .error (.refused text)
  | .ok a =>
    match a.verdict with
    | .unsat => .ok ⟨p, .unsat⟩
    | .unknown => .ok ⟨p, .unknown a.reason⟩
    | .sat => do
      let m ← asFault .term (p.model host.room a)
      let holds ← p.check host.algebra o m
      .ok ⟨p, ← Finding.ofChecks m holds⟩

/-! ## 2. Further evaluation -/

/-- Why nothing is evaluated against a solution. -/
inductive AskFault where
  | noModel (verdict : Verdict)
  | value (f : ValueFault)
  | assignment (f : AssignmentFault)

/-- The message of a fault, if it is one that is reported. -/
def AskFault.message? : AskFault → Option String
  | .noModel verdict => some ("no model to evaluate against, solve answered " ++ verdict.word)
  | .value f => some f.message
  | .assignment f => f.message?

namespace Solution

/-- The doubles of the model's values. -/
def doubles (sys : AlgebraSystem) (s : Solution) : Except AskFault (Assignment Float) :=
  match s.finding with
  | .sat m _ => asFault .value (m.assignment (·.toDouble sys))
  | .unsat | .unknown _ => .error (.noModel s.finding.verdict)

/-- The outcome of a constraint in double arithmetic. -/
def constraintOutcome (sys : AlgebraSystem) (s : Solution) (tolerance : Float) (c : Constraint) :
    Except AskFault (Outcome Bool) := do
  let v ← s.doubles sys
  asFault .assignment (c.outcome (.double tolerance) s.problem.table v)

/-- The outcome of an expression in double arithmetic. -/
def realOutcome (sys : AlgebraSystem) (s : Solution) (e : RealExpr) :
    Except AskFault (Outcome Float) := do
  let v ← s.doubles sys
  asFault .assignment (e.outcome (.double Arithmetic.defaultTolerance) s.problem.table v)

end Solution

end Credal
