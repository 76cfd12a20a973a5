import Credal.Number.Layout
import Credal.Text.Blank
import Credal.Text.Digit
import Credal.Text.Quoted

/-!
# Integers as text

Integers are written in decimal digits and read from the decimal digits of any script; a single
underscore may stand between two digits, and blanks around the whole. A numeral of more than 4300
digits is too long to be read or written: zeros in front count, the sign and underscores do not.

* `digitRun`, `sign`: the digits and the sign at the front of a text;
* `IntegerFault`, `readInteger`: an optional sign and digits between blanks;
* `writeInteger?`: the text of an integer that is not too long.

The information separators U+001C to U+001F are no blanks around an integer.
-/

namespace Credal.Number

open Credal.Text

/-! ## 1. Digits and signs -/

/-- Whether the text starts with a digit. -/
def startsWithDigit : List Char → Bool
  | [] => false
  | c :: _ => isDigit c

/-- The digits at the front of a text, underscores between digits skipped: their value continuing
    `value`, their number continuing `count`, and the rest of the text. -/
def digitRun : Nat → Nat → List Char → Nat × Nat × List Char
  | value, count, [] => (value, count, [])
  | value, count, c :: cs =>
    match digit? c with
    | some d => digitRun (10 * value + d) (count + 1) cs
    | none =>
      if c = '_' ∧ 0 < count ∧ startsWithDigit cs then digitRun value count cs
      else (value, count, c :: cs)

/-- A sign at the front of a text, whether it is a minus, and the rest. -/
def sign : List Char → Bool × List Char
  | '-' :: cs => (true, cs)
  | '+' :: cs => (false, cs)
  | cs => (false, cs)

/-- The integer with a sign and a magnitude. -/
def signed (negative : Bool) (n : Nat) : Int := if negative then -(n : Int) else n

/-- The blanks that may surround an integer or a double. -/
def isMargin (c : Char) : Bool := isBlank c && !(0x1C ≤ c.toNat && c.toNat ≤ 0x1F)

/-- The text without its margins. -/
def withoutMargins (cs : List Char) : List Char :=
  ((cs.dropWhile isMargin).reverse.dropWhile isMargin).reverse

/-! ## 2. Reading -/

/-- The number of digits beyond which an integer is neither read nor written. -/
def digitLimit : Nat := 4300

/-- Why a text is no integer. -/
inductive IntegerFault where
  /-- The text is quoted as a message shows it. -/
  | malformed (shown : String)
  | tooLong (digits : Nat)
  deriving DecidableEq, Repr

/-- The message of a fault; of a long text it shows the beginning. -/
def IntegerFault.message : IntegerFault → String
  | .malformed shown =>
    "invalid literal for int() with base 10: " ++ String.ofList (shown.toList.take 200)
  | .tooLong digits =>
    "Exceeds the limit (4300 digits) for integer string conversion: value has " ++ intText digits
      ++ " digits; use sys.set_int_max_str_digits() to increase the limit"

/-- An integer between margins. Digits that are too many are noticed before what follows them,
    unless that is an underscore. -/
def readInteger (s : String) : Except IntegerFault Int :=
  let (negative, cs) := sign (withoutMargins s.toList)
  let (value, count, rest) := digitRun 0 0 cs
  if count = 0 ∨ rest.head? = some '_' then .error (.malformed (quoted s))
  else if digitLimit < count then .error (.tooLong count)
  else if rest.isEmpty then .ok (signed negative value)
  else .error (.malformed (quoted s))

/-! ## 3. Writing -/

/-- Whether an integer has few enough digits to be written. -/
def isWritable (i : Int) : Bool := decide (i.natAbs < Nat.pow 10 digitLimit)

/-- The text of an integer that is not too long. -/
def writeInteger? (i : Int) : Option String := if isWritable i then some (intText i) else none

/-- The message about an integer that is too long to be written. -/
def unwritableText : String :=
  "Exceeds the limit (4300 digits) for integer string conversion; "
    ++ "use sys.set_int_max_str_digits() to increase the limit"

end Credal.Number
