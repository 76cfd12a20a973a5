import Credal.Number.Double
import Credal.Number.Integer

/-!
# Reading numerals

Numerals are written with the decimal digits of any script; a single underscore may stand between
two digits. Two readers share the grammar

    [+-] digits? [. digits?] [e [+-] digits]

* `Numeral`, `numeral?`: the parsed form, with at least one digit beside the point;
* `readDouble?`: a numeral, an infinity or not-a-number between blanks, as the nearest double;
* `readRational`: a numeral or a quotient of digits between blanks, kept exact. Each of its runs of
  digits is an integer and must not be too long for one.

The information separators U+001C to U+001F are no blanks around a double.
-/

namespace Credal.Number

open Credal.Text

/-! ## 1. The grammar -/

/-- A numeral `± digits · 10 ^ exponent`. -/
structure Numeral where
  negative : Bool
  digits : Nat
  exponent : Int
  /-- The number of digits of the longest of the runs of digits that it is written with. -/
  longestRun : Nat
  deriving DecidableEq, Repr

/-- The exponent part of a numeral, which may be missing, and the number of its digits; the text
    must end after it. -/
def exponent? : List Char → Option (Int × Nat)
  | [] => some (0, 0)
  | c :: cs =>
    if c = 'e' ∨ c = 'E' then
      let (negative, cs) := sign cs
      match digitRun 0 0 cs with
      | (value, count, []) => if 0 < count then some (signed negative value, count) else none
      | _ => none
    else none

/-- A numeral after its sign. A digit stands first or right after the point. -/
def unsigned? (negative : Bool) (cs : List Char) : Option Numeral :=
  let (whole, wholeCount, rest) := digitRun 0 0 cs
  match rest with
  | '.' :: rest =>
    let (value, places, rest) := digitRun whole 0 rest
    if wholeCount = 0 ∧ places = 0 then none
    else (exponent? rest).map fun (e, count) =>
      ⟨negative, value, e - places, max (max wholeCount places) count⟩
  | rest =>
    if wholeCount = 0 then none
    else (exponent? rest).map fun (e, count) => ⟨negative, whole, e, max wholeCount count⟩

/-- The numeral that the whole text is. -/
def numeral? (cs : List Char) : Option Numeral :=
  let (negative, cs) := sign cs
  unsigned? negative cs

/-- The exact value of a numeral. -/
def Numeral.toRat (n : Numeral) : Rat :=
  let (a, b) := scaleQuotient n.digits 1 n.exponent
  mkRat (signed n.negative a) b

/-- The double nearest to a numeral. -/
def Numeral.toDouble (n : Numeral) : Float := Double.ofDecimal n.negative n.digits n.exponent

/-! ## 2. The readers -/

/-- The named doubles, after the sign and in lower case. -/
def namedDouble? (negative : Bool) (word : String) : Option Float :=
  if word = "inf" ∨ word = "infinity" then
    some (if negative then Double.negInfinity else Double.infinity)
  else if word = "nan" then some Double.notANumber
  else none

/-- A double between margins. -/
def readDouble? (s : String) : Option Float :=
  let cs := withoutMargins s.toList
  match numeral? cs with
  | some n => some n.toDouble
  | none =>
    let (negative, cs) := sign cs
    namedDouble? negative (String.ofList (cs.map Char.toLower))

/-- Why a text has no rational value. -/
inductive RationalFault where
  | malformed
  | zeroDenominator
  deriving DecidableEq, Repr

/-- Whether a run of digits is an integer: it is neither empty nor too long. -/
def isIntegerRun (count : Nat) : Bool := 0 < count && count ≤ digitLimit

/-- The quotient of two runs of digits that the whole text is. -/
def quotient? (cs : List Char) : Option (Nat × Nat) :=
  match digitRun 0 0 cs with
  | (num, count, '/' :: rest) =>
    match digitRun 0 0 rest with
    | (den, count', []) =>
      if isIntegerRun count && isIntegerRun count' then some (num, den) else none
    | _ => none
  | _ => none

/-- A rational number between blanks. -/
def readRational (s : String) : Except RationalFault Rat :=
  let (negative, cs) := sign (trim s.toList)
  match unsigned? negative cs with
  | some n => if n.longestRun ≤ digitLimit then .ok n.toRat else .error .malformed
  | none =>
    match quotient? cs with
    | some (num, den) =>
      if den = 0 then .error .zeroDenominator else .ok (mkRat (signed negative num) den)
    | none => .error .malformed

end Credal.Number
