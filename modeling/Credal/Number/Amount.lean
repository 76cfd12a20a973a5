import Credal.Number.Shortest
import Credal.Number.Layout

/-!
# Amounts

A number given as an integer or as a double. A message about it shows it as it was given.

* `Amount`: the number;
* `Amount.isNegative`: whether it is below zero;
* `Amount.toDouble?`: the nearest double, none past the largest;
* `Amount.text`: how a message shows it.
-/

namespace Credal.Number

/-- A number as it was given. -/
inductive Amount where
  | whole (i : Int)
  | double (x : Float)

namespace Amount

/-- Whether the number is below zero; not-a-number is not. -/
def isNegative : Amount → Bool
  | .whole i => decide (i < 0)
  | .double x => decide (x < 0)

/-- The nearest double, none for an integer past the largest. -/
def toDouble? : Amount → Option Float
  | .whole i => Double.ofInt? i
  | .double x => some x

/-- The number as a message shows it. -/
def text : Amount → String
  | .whole i => intText i
  | .double x => Double.text x

end Amount

end Credal.Number
