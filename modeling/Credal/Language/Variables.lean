import Credal.Distinct
import Credal.Language.Constraint
import Credal.StateSpace.LetterSet

/-!
# Variables of a node

The real variables and the letters that occur in expressions and constraints, in the order in which
they are met from left to right.

* `RealExpr.reals`, `RealExpr.letters` and the same for constraints and nodes: every occurrence;
* `Variables`, `variablesOf`: each variable once;
* `Variables.without`: those that are not declared.
-/

namespace Credal

namespace RealExpr

/-- The real variables of an expression from left to right. -/
def reals : RealExpr → List String
  | .literal _ | .stateSum _ | .probability _ | .given _ _ => []
  | .var name => [name]
  | .negative e => e.reals
  | .arith _ a b | .divide a b | .power a b => a.reals ++ b.reals

/-- The letters of an expression from left to right. -/
def letters : RealExpr → List Letter
  | .literal _ | .stateSum _ | .var _ => []
  | .probability s => s.letters
  | .given s t => s.letters ++ t.letters
  | .negative e => e.letters
  | .arith _ a b | .divide a b | .power a b => a.letters ++ b.letters

end RealExpr

namespace Constraint

/-- The real variables of a constraint from left to right. -/
def reals : Constraint → List String
  | .compare _ a b => a.reals ++ b.reals
  | .negation c => c.reals
  | .binary _ c d => c.reals ++ d.reals

/-- The letters of a constraint from left to right. -/
def letters : Constraint → List Letter
  | .compare _ a b => a.letters ++ b.letters
  | .negation c => c.letters
  | .binary _ c d => c.letters ++ d.letters

end Constraint

namespace Node

/-- The real variables of a node from left to right. -/
def reals : Node → List String
  | .constraint c => c.reals
  | .real e => e.reals

/-- The letters of a node from left to right. -/
def letters : Node → List Letter
  | .constraint c => c.letters
  | .real e => e.letters

end Node

/-- Real variables and letters, each once. -/
structure Variables where
  reals : List String := []
  letters : List Letter := []
  deriving DecidableEq, Repr

namespace Variables

/-- Whether there is no variable. -/
def isEmpty (v : Variables) : Bool := v.reals.isEmpty && v.letters.isEmpty

/-- The variables that are not declared. -/
def without (v : Variables) (letters : List Letter) (reals : List String) : Variables :=
  ⟨v.reals.filter (!reals.contains ·), v.letters.filter (!letters.contains ·)⟩

end Variables

/-- The variables of nodes in the order in which they are met. -/
def variablesOf (nodes : List Node) : Variables :=
  ⟨distinct (nodes.flatMap (·.reals)), distinct (nodes.flatMap (·.letters))⟩

end Credal
