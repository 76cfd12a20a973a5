import Credal.Language.Sentence

/-!
# Real expressions

Arithmetic over literals, real variables and probabilities of sentences. A sum of state variables
`s_i` names the mass of exactly the states listed; translation puts it in the place of a
probability.

* `RealExpr`: the expressions;
* `RealExpr.literal?`: a literal, which may not be negative;
* `RealExpr.sameNumbers`: equality where literals count as numbers.
-/

namespace Credal

/-- The operators whose two operands are both required to have a value and nothing else. -/
inductive ArithOp where
  | plus
  | minus
  | times
  deriving DecidableEq, Repr

/-- The sign of an operator. -/
def ArithOp.symbol : ArithOp → String
  | .plus => "+"
  | .minus => "-"
  | .times => "*"

/-- An arithmetic expression. -/
inductive RealExpr where
  | literal (value : Float)
  | var (name : String)
  | stateSum (indices : List Int)
  | probability (arg : Sentence)
  | given (arg condition : Sentence)
  | negative (e : RealExpr)
  | arith (op : ArithOp) (left right : RealExpr)
  | divide (numerator denominator : RealExpr)
  | power (base exponent : RealExpr)
  deriving DecidableEq, Repr

namespace RealExpr

/-- The literal of a double that is not negative. -/
def literal? (x : Float) : Option RealExpr := if x < 0 then none else some (.literal x)

/-- Whether two expressions are the same up to the sign of a zero literal; a literal that is not a
    number differs from every literal. -/
def sameNumbers : RealExpr → RealExpr → Bool
  | .literal x, .literal y => x == y
  | .negative a, .negative b => sameNumbers a b
  | .arith op a b, .arith op' a' b' => op = op' && sameNumbers a a' && sameNumbers b b'
  | .divide a b, .divide a' b' => sameNumbers a a' && sameNumbers b b'
  | .power a b, .power a' b' => sameNumbers a a' && sameNumbers b b'
  | .var x, .var y => x = y
  | .stateSum is, .stateSum js => is = js
  | .probability s, .probability t => s = t
  | .given s t, .given s' t' => s = s' && t = t'
  | _, _ => false

end RealExpr

end Credal
