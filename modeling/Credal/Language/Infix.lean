import Credal.Language.Constraint
import Credal.Number.Layout

/-!
# Infix text

How sentences, real expressions and constraints are written. An operand stands in parentheses
unless it is closed, that is, unless its own text cannot be torn apart by what stands around it:
a truth value, a letter or a negation; a number, a variable, a probability, a sign with what it
negates, or a sum of at most one state; a negated constraint. Around the sign of a power a negative
operand is parenthesised too.

* `Sentence.text`, `RealExpr.text`, `Constraint.text`, `Node.text`;
* `RealExpr.stateName`: the name `s_i` of a state.
-/

namespace Credal

open Credal.Number

/-- The text of an operand, parenthesised unless it is closed. -/
def operandText (closed : Bool) (t : String) : String :=
  if closed then t else "(" ++ t ++ ")"

namespace Sentence

/-- Whether the text of a sentence needs no parentheses. -/
def isClosed : Sentence → Bool
  | .binary .. => false
  | _ => true

/-- The infix text of a sentence. -/
def text : Sentence → String
  | .value true => "⊤"
  | .value false => "⊥"
  | .letter l => l.text
  | .negation s => "~" ++ operandText s.isClosed s.text
  | .binary k s t =>
    operandText s.isClosed s.text ++ " " ++ k.symbol ++ " " ++ operandText t.isClosed t.text

end Sentence

namespace RealExpr

/-- The name of a state variable. -/
def stateName (i : Int) : String := "s_" ++ intText i

/-- Whether the text of an expression needs no parentheses. -/
def isClosed : RealExpr → Bool
  | .stateSum is => is.length ≤ 1
  | .arith .. | .divide .. | .power .. => false
  | _ => true

/-- Whether the text of an expression needs no parentheses beside the sign of a power. -/
def isClosedInPower : RealExpr → Bool
  | .negative _ => false
  | e => e.isClosed

/-- The infix text of an expression. -/
def text : RealExpr → String
  | .literal x => Double.plain x
  | .var name => name
  | .stateSum is => if is.isEmpty then "0" else " + ".intercalate (is.map stateName)
  | .probability s => "Pr(" ++ s.text ++ ")"
  | .given s t => "Pr(" ++ s.text ++ " | " ++ t.text ++ ")"
  | .negative e => "-" ++ operandText e.isClosed e.text
  | .arith op a b =>
    operandText a.isClosed a.text ++ " " ++ op.symbol ++ " " ++ operandText b.isClosed b.text
  | .divide a b => operandText a.isClosed a.text ++ " / " ++ operandText b.isClosed b.text
  | .power a b =>
    operandText a.isClosedInPower a.text ++ "^" ++ operandText b.isClosedInPower b.text

end RealExpr

namespace Constraint

/-- Whether the text of a constraint needs no parentheses. -/
def isClosed : Constraint → Bool
  | .negation _ => true
  | _ => false

/-- The infix text of a constraint. -/
def text : Constraint → String
  | .compare r a b => a.text ++ " " ++ r.symbol ++ " " ++ b.text
  | .negation c => "~" ++ operandText c.isClosed c.text
  | .binary k c d =>
    operandText c.isClosed c.text ++ " " ++ k.symbol ++ " " ++ operandText d.isClosed d.text

end Constraint

/-- The infix text of a node. -/
def Node.text : Node → String
  | .constraint c => c.text
  | .real e => e.text

end Credal
