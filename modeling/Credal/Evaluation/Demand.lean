import Credal.Evaluation.Evaluate

/-!
# Values on demand

Where a value is demanded, what an evaluation fails with is raised as the fault that belongs to it.

* `EvaluationFault`: what is raised;
* `Outcome.unwrap`: the value of an outcome;
* `RealExpr.demand`, `Constraint.demand`: the value of an expression or a constraint.
-/

namespace Credal

variable {α : Type}

/-- What is raised in the place of a value. -/
inductive EvaluationFault where
  | undeclared (v : Variables)
  | divisionByZero
  | assignment (f : AssignmentFault)
  deriving DecidableEq, Repr

/-- The fault that belongs to a failure. -/
def Failure.fault : Failure → EvaluationFault
  | .undeclared v => .undeclared v
  | .divisionByZero => .divisionByZero

/-- The message of a fault, if it is one that is reported. -/
def EvaluationFault.message? : EvaluationFault → Option String
  | .undeclared v => some (Failure.undeclared v).message
  | .divisionByZero => some Failure.divisionByZero.message
  | .assignment f => f.message?

/-- The value of an outcome. -/
def Outcome.unwrap : Outcome α → Except EvaluationFault α
  | .ok a => .ok a
  | .error f => .error f.fault

/-- The value that an evaluation comes to. -/
def demanded : Except AssignmentFault (Outcome α) → Except EvaluationFault α
  | .ok o => Outcome.unwrap o
  | .error f => .error (.assignment f)

/-- The value of an expression. -/
def RealExpr.demand (A : Arithmetic α) (t : TruthTable) (v : Assignment α) (e : RealExpr) :
    Except EvaluationFault α :=
  demanded (e.outcome A t v)

/-- The truth value of a constraint. -/
def Constraint.demand (A : Arithmetic α) (t : TruthTable) (v : Assignment α) (c : Constraint) :
    Except EvaluationFault Bool :=
  demanded (c.outcome A t v)

end Credal
