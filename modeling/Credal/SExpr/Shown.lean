import Credal.SExpr.Basic
import Credal.Text.Quoted

/-!
# How messages show s-expressions

Messages that complain about a term quote its atoms and set its lists in brackets.

* `SExpr.shown`: the text of a term in a message.
-/

namespace Credal.SExpr

open Credal.Text

mutual

/-- The term as a message shows it. -/
def shown : SExpr → String
  | .atom t => quoted t
  | .list [] => "[]"
  | .list (item :: items) => "[" ++ shown item ++ shownRest items ++ "]"

/-- The items of a list after its first. -/
def shownRest : List SExpr → String
  | [] => ""
  | item :: items => ", " ++ shown item ++ shownRest items

end

end Credal.SExpr
