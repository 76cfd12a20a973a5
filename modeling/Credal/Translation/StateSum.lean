import Credal.Language.Constraint
import Credal.StateSpace.TruthTable

/-!
# Probabilities as sums of states

The probability of a sentence is the mass of the states in which it is true. Translation writes it
as the sum of their variables, or as 1 if they are all the states of the table; a conditional
probability becomes the quotient of two such masses. All else stays as it is.

* `TruthTable.mass`: the mass of a sentence;
* `RealExpr.translate`, `Constraint.translate`, `Node.translate`.
-/

namespace Credal

/-- The mass of the states in which a sentence is true. -/
def TruthTable.mass (t : TruthTable) (s : Sentence) : RealExpr :=
  let states := t.dnf s
  if states.length = t.stateCount then .literal 1
  else .stateSum (states.map fun (i : Nat) => (i : Int))

/-- The expression with masses in the place of probabilities. -/
def RealExpr.translate (t : TruthTable) : RealExpr → RealExpr
  | .literal x => .literal x
  | .var name => .var name
  | .stateSum is => .stateSum is
  | .probability s => t.mass s
  | .given s condition => .divide (t.mass (.binary .conjunction s condition)) (t.mass condition)
  | .negative e => .negative (e.translate t)
  | .arith op a b => .arith op (a.translate t) (b.translate t)
  | .divide a b => .divide (a.translate t) (b.translate t)
  | .power a b => .power (a.translate t) (b.translate t)

/-- The constraint with masses in the place of probabilities. -/
def Constraint.translate (t : TruthTable) : Constraint → Constraint
  | .compare r a b => .compare r (a.translate t) (b.translate t)
  | .negation c => .negation (c.translate t)
  | .binary k c d => .binary k (c.translate t) (d.translate t)

/-- The node with masses in the place of probabilities. -/
def Node.translate (t : TruthTable) : Node → Node
  | .constraint c => .constraint (c.translate t)
  | .real e => .real (e.translate t)

end Credal
