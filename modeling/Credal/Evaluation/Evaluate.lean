import Credal.Evaluation.Arithmetic
import Credal.Evaluation.Outcome
import Credal.Language.Infix
import Credal.StateSpace.TruthTable

/-!
# Evaluation

Expressions and constraints are evaluated against values of the states and of the real variables.
Before any arithmetic the whole node is searched for variables without a value, so that all of
them are reported together. Every part is evaluated, also where the other part alone would decide.
A state without a value is no failure of the node but of the assignment, and so is a value that
the number system has no number for; either ends the evaluation at once.

* `Assignment`, `AssignmentFault`: the values, and what is wrong with them;
* `RealExpr.evaluate`, `Constraint.evaluate`: the value without the search;
* `undeclared`: the search;
* `RealExpr.outcome`, `Constraint.outcome`: search and evaluation;
* `Constraint.holds`, `validate`: whether a constraint holds, and which of several do.
-/

namespace Credal

variable {α : Type}

/-- A value that is given for a state or a variable. -/
inductive Assigned (α : Type) where
  | number (a : α)
  /-- It is past all numbers of the number system. -/
  | tooLarge
  deriving DecidableEq, Repr

/-- A double that is given, if it is finite. -/
def Assigned.ofFinite (x : Float) : Assigned Float := if x.isFinite then .number x else .tooLarge

/-- The values of states and real variables. -/
structure Assignment (α : Type) where
  state : Int → Option (Assigned α)
  real : String → Option (Assigned α)

/-- What is wrong with an assignment. -/
inductive AssignmentFault where
  /-- A state has no value. -/
  | missingState (index : Int)
  /-- A value is past all numbers of the number system. -/
  | tooLarge
  deriving DecidableEq, Repr

/-- The message of a fault that tells what was asked for. -/
def AssignmentFault.message? : AssignmentFault → Option String
  | .missingState index => some ("no value for state variable " ++ RealExpr.stateName index)
  | .tooLarge => none

/-- The number that is given. -/
def Assigned.get : Assigned α → Except AssignmentFault α
  | .number a => .ok a
  | .tooLarge => .error .tooLarge

namespace Assignment

/-- The assignment that two lists give; the first value of a name holds. -/
def ofAssigned (states : List (Int × Assigned α)) (reals : List (String × Assigned α)) :
    Assignment α :=
  ⟨(states.lookup ·), (reals.lookup ·)⟩

/-- The assignment of the numbers of two lists. -/
def ofLists (states : List (Int × α)) (reals : List (String × α)) : Assignment α :=
  ofAssigned (states.map fun (i, a) => (i, .number a)) (reals.map fun (x, a) => (x, .number a))

/-- The sum of the values of states, from left to right, added to `total`. -/
def sumFrom (A : Arithmetic α) (v : Assignment α) (total : α) :
    List Int → Except AssignmentFault α
  | [] => .ok total
  | i :: rest =>
    match v.state i with
    | some x => do sumFrom A v (A.add total (← x.get)) rest
    | none => .error (.missingState i)

/-- The sum of the values of states. -/
def sum (A : Arithmetic α) (v : Assignment α) (is : List Int) : Except AssignmentFault α :=
  sumFrom A v (A.ofDouble 0) is

/-- The mass of a sentence: one if it is true in all states, else the sum of those in which it
    is. -/
def mass (A : Arithmetic α) (t : TruthTable) (v : Assignment α) (s : Sentence) :
    Except AssignmentFault α :=
  let states := t.dnf s
  if states.length = t.stateCount then .ok (A.ofDouble 1)
  else sum A v (states.map fun (i : Nat) => (i : Int))

end Assignment

/-- The quotient, a failure if the divisor is zero. -/
def Arithmetic.quotient (A : Arithmetic α) (a b : α) : Outcome α :=
  match A.divide? a b with
  | some q => .ok q
  | none => .error .divisionByZero

/-- The value of an expression. -/
def RealExpr.evaluate (A : Arithmetic α) (t : TruthTable) (v : Assignment α) :
    RealExpr → Except AssignmentFault (Outcome α)
  | .literal x => .ok (.ok (A.ofDouble x))
  | .var name =>
    match v.real name with
    | some x => do .ok (.ok (← x.get))
    | none => .ok (.error (.undeclared ⟨[name], []⟩))
  | .stateSum is => do .ok (.ok (← v.sum A is))
  | .probability s => do .ok (.ok (← v.mass A t s))
  | .given s c => do
    let both ← v.mass A t (.binary .conjunction s c)
    let condition ← v.mass A t c
    .ok (A.quotient both condition)
  | .negative e => do .ok ((← e.evaluate A t v).map A.negate)
  | .arith op a b => do
    let a ← a.evaluate A t v
    let b ← b.evaluate A t v
    .ok (Outcome.combine (fun x y => .ok (A.apply op x y)) a b)
  | .divide a b => do
    let a ← a.evaluate A t v
    let b ← b.evaluate A t v
    .ok (Outcome.combine A.quotient a b)
  | .power a b => do
    let a ← a.evaluate A t v
    let b ← b.evaluate A t v
    .ok (Outcome.combine (fun x y => .ok (A.power x y)) a b)

/-- The truth value of a constraint. -/
def Constraint.evaluate (A : Arithmetic α) (t : TruthTable) (v : Assignment α) :
    Constraint → Except AssignmentFault (Outcome Bool)
  | .compare r a b => do
    let a ← a.evaluate A t v
    let b ← b.evaluate A t v
    .ok (Outcome.combine (fun x y => .ok (A.compare r x y)) a b)
  | .negation c => do .ok ((← c.evaluate A t v).map (!·))
  | .binary k c d => do
    let c ← c.evaluate A t v
    let d ← d.evaluate A t v
    .ok (Outcome.combine (fun x y => .ok (k.holds x y)) c d)

/-- The real variables of a node that have no value and its letters that the table has not. -/
def undeclared (t : TruthTable) (v : Assignment α) (n : Node) : Variables :=
  let all := variablesOf [n]
  ⟨all.reals.filter fun name => (v.real name).isNone,
    all.letters.filter fun l => !t.letters.contains l⟩

/-- The outcome of an evaluation, unless variables are undeclared. -/
def unlessUndeclared {β : Type} (t : TruthTable) (v : Assignment α) (n : Node)
    (e : Except AssignmentFault (Outcome β)) : Except AssignmentFault (Outcome β) :=
  let free := undeclared t v n
  if free.isEmpty then e else .ok (.error (.undeclared free))

/-- The outcome of evaluating an expression. -/
def RealExpr.outcome (A : Arithmetic α) (t : TruthTable) (v : Assignment α) (e : RealExpr) :
    Except AssignmentFault (Outcome α) :=
  unlessUndeclared t v (.real e) (e.evaluate A t v)

/-- The outcome of evaluating a constraint. -/
def Constraint.outcome (A : Arithmetic α) (t : TruthTable) (v : Assignment α) (c : Constraint) :
    Except AssignmentFault (Outcome Bool) :=
  unlessUndeclared t v (.constraint c) (c.evaluate A t v)

/-- Whether a constraint holds; one whose evaluation fails does not. -/
def Constraint.holds (A : Arithmetic α) (t : TruthTable) (v : Assignment α) (c : Constraint) :
    Except AssignmentFault Bool := do
  match ← c.outcome A t v with
  | .ok b => .ok b
  | .error _ => .ok false

/-- Whether each constraint holds. -/
def validate (A : Arithmetic α) (t : TruthTable) (v : Assignment α) (cs : List Constraint) :
    Except AssignmentFault (List Bool) :=
  cs.mapM (·.holds A t v)

end Credal
