/-!
# S-expressions

Requests to a solver and its answers are s-expressions: an atom is a text, a list holds
s-expressions.

* `SExpr`: the expressions;
* `SExpr.text`: an atom as itself, a list in parentheses with single blanks between its items.
-/

namespace Credal

/-- An s-expression. -/
inductive SExpr where
  | atom (text : String)
  | list (items : List SExpr)
  deriving Repr, Inhabited

namespace SExpr

mutual

/-- Whether two expressions are equal. -/
def decideEq : (s t : SExpr) → Decidable (s = t)
  | .atom a, .atom b => if h : a = b then isTrue (by rw [h]) else isFalse (by simp [h])
  | .list as, .list bs =>
    match decideEqItems as bs with
    | isTrue h => isTrue (by rw [h])
    | isFalse h => isFalse (by simp [h])
  | .atom _, .list _ => isFalse nofun
  | .list _, .atom _ => isFalse nofun

/-- Whether two lists of expressions are equal. -/
def decideEqItems : (as bs : List SExpr) → Decidable (as = bs)
  | [], [] => isTrue rfl
  | [], _ :: _ => isFalse nofun
  | _ :: _, [] => isFalse nofun
  | a :: as, b :: bs =>
    match decideEq a b with
    | isFalse h => isFalse (by simp [h])
    | isTrue h =>
      match decideEqItems as bs with
      | isTrue h' => isTrue (by rw [h, h'])
      | isFalse h' => isFalse (by simp [h'])

end

instance : DecidableEq SExpr := decideEq

/-- The list of an operator and its operands. -/
def app (op : String) (operands : List SExpr) : SExpr := .list (.atom op :: operands)

mutual

/-- The text of an s-expression. -/
def text : SExpr → String
  | .atom t => t
  | .list [] => "()"
  | .list (item :: items) => "(" ++ text item ++ restText items ++ ")"

/-- The text of the items of a list after its first. -/
def restText : List SExpr → String
  | [] => ""
  | item :: items => " " ++ text item ++ restText items

end

end SExpr

end Credal
