import Credal.Language.Variables
import Credal.Smt.Request
import Credal.StateSpace.TruthTable
import Credal.Translation.Axioms

/-!
# Problems

Constraints made ready for a solver: translated over a truth table, enriched with the axioms and
the division guards, and written as the lines of a request.

* `Problem`, `Problem.ofTable?`, `Problem.ofConstraints?`: a problem over a given table, or over
  the table of the letters that occur;
* `Problem.lines`: the whole request.
-/

namespace Credal

/-- A problem for a solver. -/
structure Problem where
  table : TruthTable
  constraints : List Constraint
  translated : List Constraint
  enriched : List Constraint
  /-- The real variables of the constraints. -/
  reals : List String
  /-- The declarations and assertions. -/
  script : List SExpr

namespace Problem

/-- The problem of constraints over a table. -/
def ofTable? (regular : Bool) (t : TruthTable) (cs : List Constraint) :
    Except EncodeFault Problem := do
  let translated := cs.map (·.translate t)
  let enriched := enrich t regular translated
  let reals := (variablesOf (cs.map .constraint)).reals
  .ok ⟨t, cs, translated, enriched, reals, ← requestBody t reals enriched⟩

/-- The table of the letters of constraints. -/
def tableOf (cs : List Constraint) : TruthTable :=
  TruthTable.ofLetters .byName (variablesOf (cs.map .constraint)).letters

/-- The problem of constraints over the table of their letters. -/
def ofConstraints? (regular : Bool) (cs : List Constraint) : Except EncodeFault Problem :=
  ofTable? regular (tableOf cs) cs

/-- The lines of the request. -/
def lines (p : Problem) : List SExpr := enclose p.script

end Problem

end Credal
