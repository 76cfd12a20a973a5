import Credal.Json.Basic
import Credal.Number.Layout
import Credal.Text.Quoted

/-!
# How messages name JSON values

Messages show the value that they complain about, and a name may be given as any value. Strings
are quoted inside a list or an object; on its own a name is shown bare.

* `Json.shown`: a value as a message quotes it;
* `Json.bare`: the same, but a string on its own without quotes.
-/

namespace Credal.Json

open Credal.Number Credal.Text

mutual

/-- The value as a message quotes it. -/
def shown : Json → String
  | .null => "None"
  | .bool true => "True"
  | .bool false => "False"
  | .int i => intText i
  | .float x => Double.text x
  | .string s => quoted s
  | .unpaired ps => quotedPoints ps
  | .array [] => "[]"
  | .array (item :: items) => "[" ++ shown item ++ shownItems items ++ "]"
  | .object [] => "\x7b\x7d"
  | .object ((key, value) :: fields) =>
    "\x7b" ++ quoted key ++ ": " ++ shown value ++ shownFields fields ++ "\x7d"

/-- The items of an array after its first. -/
def shownItems : List Json → String
  | [] => ""
  | item :: items => ", " ++ shown item ++ shownItems items

/-- The fields of an object after its first. -/
def shownFields : List (String × Json) → String
  | [] => ""
  | (key, value) :: fields => ", " ++ quoted key ++ ": " ++ shown value ++ shownFields fields

end

/-- The value as a name. -/
def bare : Json → String
  | .string s => s
  | .unpaired ps => nearestText ps
  | j => j.shown

end Credal.Json
