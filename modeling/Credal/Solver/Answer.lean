import Credal.Evaluation.Evaluate
import Credal.Model.Decode
import Credal.Model.Exact
import Credal.SExpr.Reader
import Credal.Solver.Problem

/-!
# Answers and models

What a solver answers to a request, and the model that is read from it. An answer is not trusted:
it may give any text for any constant.

* `Host`: what a solve depends on besides the solver;
* `Verdict`, `Answer`: the solver's answer;
* `Model`, `Problem.model`: the values of all states and real variables, each read from its text;
* `Model.assignment`: the numbers that they denote.
-/

namespace Credal

/-- What a solve depends on besides the solver. -/
structure Host where
  /-- How many zeros between two monomials fit into memory. -/
  room : Nat
  /-- What exact numbers and approximations are left to. -/
  algebra : AlgebraSystem

/-- What a solver finds. -/
inductive Verdict where
  | sat
  | unsat
  | unknown
  deriving DecidableEq, Repr

/-- The word for a verdict. -/
def Verdict.word : Verdict → String
  | .sat => "sat"
  | .unsat => "unsat"
  | .unknown => "unknown"

/-- A solver's answer. -/
structure Answer where
  verdict : Verdict
  /-- Why the verdict is unknown. -/
  reason : String
  /-- The text of the term that a constant has in the model. -/
  term : String → String

/-- Why a term of an answer gives no value. -/
inductive TermFault where
  | unreadable (f : SExpr.ReadFault)
  | undecodable (f : DecodeFault)

/-- The value that the text of a term gives. -/
def ModelValue.read (room : Nat) (text : String) : Except TermFault ModelValue :=
  match SExpr.read text with
  | .error f => .error (.unreadable f)
  | .ok s =>
    match ModelValue.decode room s with
    | .error f => .error (.undecodable f)
    | .ok v => .ok v

/-- The values of the states and of the real variables. -/
structure Model where
  states : List (Nat × ModelValue)
  reals : List (String × ModelValue)

/-- The model that an answer gives for a problem: the states first. -/
def Problem.model (room : Nat) (p : Problem) (a : Answer) : Except TermFault Model := do
  let states ← p.table.states.mapM fun (i : Nat) => do
    pure (i, ← ModelValue.read room (a.term (RealExpr.stateName i)))
  let reals ← p.reals.mapM fun name => do pure (name, ← ModelValue.read room (a.term name))
  .ok ⟨states, reals⟩

namespace Model

/-- The assignment of the numbers that the values denote. -/
def assignment {α : Type} (number : ModelValue → Except ValueFault α) (m : Model) :
    Except ValueFault (Assignment α) := do
  let states ← m.states.mapM fun (i, v) => do pure ((i : Int), ← number v)
  let reals ← m.reals.mapM fun (name, v) => do pure (name, ← number v)
  .ok (.ofLists states reals)

/-- The doubles of the states' values. -/
def stateDoubles (sys : AlgebraSystem) (m : Model) : Except ValueFault (List Float) :=
  m.states.mapM fun v => v.2.toDouble sys

/-- The doubles of the real variables' values. -/
def realDoubles (sys : AlgebraSystem) (m : Model) : Except ValueFault (List Float) :=
  m.reals.mapM fun v => v.2.toDouble sys

end Model

end Credal
