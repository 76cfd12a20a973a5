import Credal.Translation.StateSum

/-!
# Side conditions of a translated problem

The state variables form a probability distribution, and no denominator is zero: a solver's
division by zero has some value, so without the second condition it could find models in which a
quotient means nothing.

* `probabilityAxioms`: each state at least zero (or above zero, in regular mode), then their sum
  equal to one;
* `RealExpr.guards`, `Constraint.guards`, `divisionGuards`: a guard for every division whose
  denominator is not a literal other than zero, before the guards of its parts;
* `enrich`: axioms, guards and the constraints themselves.
-/

namespace Credal

/-- The variable of a state. -/
def stateVariable (i : Nat) : RealExpr := .stateSum [(i : Int)]

/-- The axioms of a probability distribution on the states of a table. -/
def probabilityAxioms (t : TruthTable) (regular : Bool) : List Constraint :=
  (t.states.map fun i =>
      .compare (if regular then .greater else .greaterEqual) (stateVariable i) (.literal 0))
    ++ [.compare .equal (.stateSum (t.states.map fun (i : Nat) => (i : Int))) (.literal 1)]

namespace RealExpr

/-- Whether an expression could be zero as far as its form shows. -/
def needsGuard : RealExpr → Bool
  | .literal x => x == 0
  | _ => true

/-- The condition that an expression is not zero. -/
def guard (e : RealExpr) : Constraint := .negation (.compare .equal e (.literal 0))

/-- The guards of the divisions of an expression, from the outside in and from left to right. -/
def guards : RealExpr → List Constraint
  | .literal _ | .var _ | .stateSum _ | .probability _ | .given _ _ => []
  | .negative e => e.guards
  | .arith _ a b | .power a b => a.guards ++ b.guards
  | .divide a b => (if b.needsGuard then [b.guard] else []) ++ a.guards ++ b.guards

end RealExpr

/-- The guards of the divisions of a constraint. -/
def Constraint.guards : Constraint → List Constraint
  | .compare _ a b => a.guards ++ b.guards
  | .negation c => c.guards
  | .binary _ c d => c.guards ++ d.guards

/-- The guards of the divisions of a node. -/
def Node.guards : Node → List Constraint
  | .constraint c => c.guards
  | .real e => e.guards

/-- The guards of the divisions of nodes. -/
def divisionGuards (nodes : List Node) : List Constraint := nodes.flatMap (·.guards)

/-- Translated constraints with the side conditions before them. -/
def enrich (t : TruthTable) (regular : Bool) (translated : List Constraint) : List Constraint :=
  probabilityAxioms t regular ++ divisionGuards (translated.map .constraint) ++ translated

end Credal
