import Credal.Solver.Answer

/-!
# Replies

The text that a solver prints in reply to a request: a verdict, and after `sat` the definitions of
the constants of a model. A constant that the model leaves out is zero.

* `definitions`: the defined constants and their terms;
* `readReply`: the answer, or the message of a solver that failed.
-/

namespace Credal

/-- The constants that a printed model defines, with the texts of their terms. -/
def definitions : List SExpr → List (String × String)
  | [] => []
  | .list [.atom "define-fun", .atom name, .list [], .atom "Real", term] :: rest =>
    (name, term.text) :: definitions rest
  | _ :: rest => definitions rest

/-- The items of the lists among expressions. -/
def innerItems (items : List SExpr) : List SExpr :=
  items.flatMap fun s => match s with
    | .list inner => inner
    | .atom _ => []

/-- The answer that the expressions of a reply give. -/
def answerOfItems : List SExpr → Except String Answer
  | .atom "sat" :: rest =>
    let values := definitions (innerItems rest)
    .ok ⟨.sat, "", fun name => (values.lookup name).getD "0.0"⟩
  | .atom "unsat" :: _ => .ok ⟨.unsat, "", fun _ => "0.0"⟩
  | .atom "unknown" :: rest =>
    .ok ⟨.unknown, " ".intercalate (rest.map SExpr.text), fun _ => "0.0"⟩
  | items => .error (" ".intercalate (items.map SExpr.text))

/-- The answer that the text of a reply gives. -/
def readReply (text : String) : Except String Answer :=
  match SExpr.read ("(" ++ text ++ ")") with
  | .error f => .error f.message
  | .ok (.list items) => answerOfItems items
  | .ok (.atom t) => .error t

end Credal
