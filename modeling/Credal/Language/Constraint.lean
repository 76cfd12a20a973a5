import Credal.Language.RealExpr

/-!
# Constraints

Comparisons of real expressions and their boolean combinations.

* `Relation`: the six comparisons;
* `Constraint`: the constraints;
* `Node`: a constraint or a real expression, whatever a question may be about.
-/

namespace Credal

/-- A comparison of two numbers. -/
inductive Relation where
  | equal
  | notEqual
  | less
  | lessEqual
  | greater
  | greaterEqual
  deriving DecidableEq, Repr

/-- The sign of a comparison. -/
def Relation.symbol : Relation → String
  | .equal => "="
  | .notEqual => "≠"
  | .less => "<"
  | .lessEqual => "≤"
  | .greater => ">"
  | .greaterEqual => "≥"

/-- A constraint on probabilities and real variables. -/
inductive Constraint where
  | compare (r : Relation) (left right : RealExpr)
  | negation (c : Constraint)
  | binary (k : Connective) (left right : Constraint)
  deriving DecidableEq, Repr

namespace Constraint

/-- Whether two constraints are the same, their literals compared as numbers. -/
def sameNumbers : Constraint → Constraint → Bool
  | .compare r a b, .compare r' a' b' => r = r' && a.sameNumbers a' && b.sameNumbers b'
  | .negation c, .negation d => sameNumbers c d
  | .binary k c d, .binary k' c' d' => k = k' && sameNumbers c c' && sameNumbers d d'
  | _, _ => false

end Constraint

/-- A constraint or a real expression. -/
inductive Node where
  | constraint (c : Constraint)
  | real (e : RealExpr)
  deriving DecidableEq, Repr

end Credal
