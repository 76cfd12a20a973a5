import Credal.Smt.Term
import Credal.StateSpace.TruthTable

/-!
# Solver requests

A request names the logic, declares a constant for every real variable and every state, asserts the
constraints, and asks for a verdict and a model.

* `logic`: the logic;
* `declarations`, `assertions`, `requestBody`: the lines that a problem gives;
* `enclose`, `request`: all lines.
-/

namespace Credal

/-- Real arithmetic without quantifiers. -/
def logic : String := "QF_NRA"

/-- The line that declares a constant. -/
def declaration (name : SExpr) : SExpr := .app "declare-const" [name, .atom "Real"]

/-- The declarations of the real variables and then of the states of a table. -/
def declarations (t : TruthTable) (reals : List String) : List SExpr :=
  reals.map (fun name => declaration (.atom name))
    ++ t.states.map fun (i : Nat) => declaration (RealExpr.stateTerm i)

/-- The lines that assert constraints. -/
def assertions (cs : List Constraint) : Except EncodeFault (List SExpr) :=
  cs.mapM fun c => do .ok (.app "assert" [← c.encode])

/-- The declarations and assertions of a problem. -/
def requestBody (t : TruthTable) (reals : List String) (cs : List Constraint) :
    Except EncodeFault (List SExpr) := do
  .ok (declarations t reals ++ (← assertions cs))

/-- A request with the given declarations and assertions. -/
def enclose (lines : List SExpr) : List SExpr :=
  [.app "set-logic" [.atom logic]] ++ lines ++ [.app "check-sat" [], .app "get-model" []]

/-- The lines of a request. -/
def request (t : TruthTable) (reals : List String) (cs : List Constraint) :
    Except EncodeFault (List SExpr) := do
  .ok (enclose (← requestBody t reals cs))

end Credal
