import Credal.Text.CodePoint
import Credal.Text.Printable

/-!
# Quoted text

How a message shows a text that it quotes: between single quotes, or between double quotes when it
holds a single quote and no double one. Inside, the backslash and the enclosing quote are escaped,
and a character that is not printable is written by its code; so is half of a surrogate pair.

* `QuoteMark`, `quoteMark`: which quote encloses a text;
* `escape`: what stands for one character;
* `quoted`, `quotedPoints`: a whole text, given by its characters or by code points.
-/

namespace Credal.Text

/-- The quote that encloses a text. -/
inductive QuoteMark where
  | single
  | double
  deriving DecidableEq, Repr

/-- The character that opens and closes. -/
def QuoteMark.char : QuoteMark → Char
  | .single => '\''
  | .double => '"'

/-- Single quotes, unless the text holds one of them and no double quote. -/
def quoteMark (cs : List Char) : QuoteMark :=
  if cs.contains '\'' && !cs.contains '"' then .double else .single

/-- A lower-case hexadecimal digit. -/
def hexDigit (n : Nat) : Char :=
  if n < 10 then Char.ofNat (48 + n) else Char.ofNat (87 + n)

/-- The `width` lowest hexadecimal digits of `n`, highest first. -/
def hexDigits : Nat → Nat → List Char
  | 0, _ => []
  | width + 1, n => hexDigit (n / Nat.pow 16 width % 16) :: hexDigits width n

/-- What stands for one character between quotes of the given kind. -/
def escape (mark : QuoteMark) (c : Char) : List Char :=
  if c = '\\' ∨ c = mark.char then ['\\', c]
  else if c = '\n' then ['\\', 'n']
  else if c = '\r' then ['\\', 'r']
  else if c = '\t' then ['\\', 't']
  else if isPrintable c then [c]
  else if c.toNat < 0x100 then '\\' :: 'x' :: hexDigits 2 c.toNat
  else if c.toNat < 0x10000 then '\\' :: 'u' :: hexDigits 4 c.toNat
  else '\\' :: 'U' :: hexDigits 8 c.toNat

/-- The text as a message quotes it. -/
def quoted (s : String) : String :=
  let mark := quoteMark s.toList
  String.ofList (mark.char :: s.toList.flatMap (escape mark) ++ [mark.char])

/-- What stands for one code point. -/
def escapePoint (mark : QuoteMark) (p : Nat) : List Char :=
  if isHalf p then '\\' :: 'u' :: hexDigits 4 p else escape mark (Char.ofNat p)

/-- The text of code points as a message quotes it. -/
def quotedPoints (ps : List Nat) : String :=
  let mark := quoteMark (nearestText ps).toList
  String.ofList (mark.char :: ps.flatMap (escapePoint mark) ++ [mark.char])

end Credal.Text
