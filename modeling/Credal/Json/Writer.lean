import Credal.Json.Basic
import Credal.Number.Layout
import Credal.Text.Quoted

/-!
# Writing JSON

A value is written on one line, or on many with each level indented by the same text.
Only the quote, the backslash and the control characters of a string are escaped.

* `escapeChar`, `stringText`, `pointsText`: strings;
* `floatText`: doubles, the special ones by their words;
* `Style`, `Style.ofJson?`: how a value is set apart, and what is asked for by a value;
* `Json.text`: values.
-/

namespace Credal.Json

open Credal.Number Credal.Text

/-- What stands for one character of a string. -/
def escapeChar (c : Char) : List Char :=
  if c = '"' then ['\\', '"']
  else if c = '\\' then ['\\', '\\']
  else if c = '\n' then ['\\', 'n']
  else if c = '\r' then ['\\', 'r']
  else if c = '\t' then ['\\', 't']
  else if c = '\x08' then ['\\', 'b']
  else if c = '\x0c' then ['\\', 'f']
  else if c.toNat < 0x20 then '\\' :: 'u' :: hexDigits 4 c.toNat
  else [c]

/-- A string between quotes. -/
def stringText (s : String) : String :=
  String.ofList ('"' :: s.toList.flatMap escapeChar ++ ['"'])

/-- A string of code points between quotes; the halves of pairs are escaped. -/
def pointsText (ps : List Nat) : String :=
  String.ofList ('"' :: ps.flatMap (fun p =>
    if isHalf p then '\\' :: 'u' :: hexDigits 4 p else escapeChar (Char.ofNat p)) ++ ['"'])

/-- A double; the special ones are words. -/
def floatText (x : Float) : String :=
  if (Double.parts? x).isSome then Double.text x
  else if x.isNaN then "NaN"
  else if Double.isNegative x then "-Infinity"
  else "Infinity"

/-- How the items of arrays and objects are set apart: on one line, or each on a line of its own,
    indented by `step` at every level. -/
inductive Style where
  | line
  | block (step : String)
  deriving DecidableEq, Repr

namespace Style

/-- Indentation by a number of blanks. -/
def blanks (n : Nat) : Style := .block (String.ofList (List.replicate n ' '))

/-- The style that a value asks for: a text to indent by or a number of blanks, which a truth value
    may stand for, and null for one line. -/
def ofJson? : Json → Option Style
  | .null => some .line
  | .bool b => some (blanks (if b then 1 else 0))
  | .int i => some (blanks i.toNat)
  | .string s => some (.block s)
  | .float _ | .unpaired _ | .array _ | .object _ => none

end Style

/-- The line break before an item at the given level. -/
def Style.break : Style → Nat → String
  | .line, _ => ""
  | .block step, level => "\n" ++ String.join (List.replicate level step)

/-- What stands between two items at the given level. -/
def Style.comma : Style → Nat → String
  | .line, _ => ", "
  | style, level => "," ++ style.break level

mutual

/-- A value whose own items stand at level `level + 1`. -/
def textAt (style : Style) (level : Nat) : Json → String
  | .null => "null"
  | .bool true => "true"
  | .bool false => "false"
  | .int i => intText i
  | .float x => floatText x
  | .string s => stringText s
  | .unpaired ps => pointsText ps
  | .array [] => "[]"
  | .array (item :: items) =>
    "[" ++ style.break (level + 1) ++ textAt style (level + 1) item
      ++ itemsText style (level + 1) items ++ style.break level ++ "]"
  | .object [] => "\x7b\x7d"
  | .object ((key, value) :: fields) =>
    "\x7b" ++ style.break (level + 1) ++ stringText key ++ ": " ++ textAt style (level + 1) value
      ++ fieldsText style (level + 1) fields ++ style.break level ++ "\x7d"

/-- The items of an array after its first. -/
def itemsText (style : Style) (level : Nat) : List Json → String
  | [] => ""
  | item :: items =>
    style.comma level ++ textAt style level item ++ itemsText style level items

/-- The fields of an object after its first. -/
def fieldsText (style : Style) (level : Nat) : List (String × Json) → String
  | [] => ""
  | (key, value) :: fields =>
    style.comma level ++ stringText key ++ ": " ++ textAt style level value
      ++ fieldsText style level fields

end

/-- The value as a document. -/
def text (style : Style) (j : Json) : String := textAt style 0 j

end Credal.Json
