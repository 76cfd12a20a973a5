import Credal.Json.Basic
import Credal.Number.Numeral

/-!
# Reading JSON

The reader takes the whole text as one document. Beside the standard grammar it knows the words
`NaN`, `Infinity` and `-Infinity`; a number with a point or an exponent is the nearest double, any
other one an integer that must not be too long. Control characters may not stand in a string, the
digits of numbers are the ASCII ones. A string may hold half of a surrogate pair; a key may not, and
has the replacement character in its place. The first fault ends the reading.

* `ReadFault`: why a text is no document;
* `readString?`: a string after its opening quote;
* `readNumber`: a number;
* `readValue`: a value, with fuel for the nesting;
* `Json.read`: a document.
-/

namespace Credal.Json

open Credal.Number Credal.Text

/-- Why a text is no document. -/
inductive ReadFault where
  | malformed
  /-- An integer has so many digits that it is too long. -/
  | tooLong (digits : Nat)
  deriving DecidableEq, Repr

/-! ## 1. Blanks and words -/

/-- The characters that may stand between tokens. -/
def isGap (c : Char) : Bool := c = ' ' || c = '\t' || c = '\n' || c = '\r'

/-- The text from its first token on. -/
def skipGap (cs : List Char) : List Char := cs.dropWhile isGap

/-- The rest of a text that starts with `word`. -/
def afterWord? : List Char → List Char → Option (List Char)
  | [], cs => some cs
  | w :: ws, c :: cs => if w = c then afterWord? ws cs else none
  | _ :: _, [] => none

/-! ## 2. Strings -/

/-- The value of a hexadecimal digit. -/
def hexValue? (c : Char) : Option Nat :=
  if '0' ≤ c ∧ c ≤ '9' then some (c.toNat - 48)
  else if 'a' ≤ c ∧ c ≤ 'f' then some (c.toNat - 87)
  else if 'A' ≤ c ∧ c ≤ 'F' then some (c.toNat - 55)
  else none

/-- The value of four hexadecimal digits. -/
def hexQuad? (a b c d : Char) : Option Nat := do
  let a ← hexValue? a
  let b ← hexValue? b
  let c ← hexValue? c
  let d ← hexValue? d
  some (((a * 16 + b) * 16 + c) * 16 + d)

/-- The character that a one-letter escape stands for. -/
def simpleEscape? (c : Char) : Option Char :=
  match c with
  | '"' => some '"'
  | '\\' => some '\\'
  | '/' => some '/'
  | 'b' => some '\x08'
  | 'f' => some '\x0c'
  | 'n' => some '\n'
  | 'r' => some '\r'
  | 't' => some '\t'
  | _ => none

/-- What follows an opened pair: the unit that closes it and the text behind that, if it is
    there. -/
def lowHalf? : List Char → Option (Nat × List Char)
  | '\\' :: 'u' :: a :: b :: c :: d :: cs =>
    match hexQuad? a b c d with
    | some unit => if isLowHalf unit then some (unit, cs) else none
    | none => none
  | _ => none

/-- The code points of a string after its opening quote, and the text after its closing quote. A
    step takes at least one character, so the length of the text is fuel enough. -/
def readString? : Nat → List Char → Option (List Nat × List Char)
  | 0, _ => none
  | _ + 1, [] => none
  | _ + 1, '"' :: cs => some ([], cs)
  | fuel + 1, '\\' :: 'u' :: a :: b :: c :: d :: cs => do
    let unit ← hexQuad? a b c d
    match (if isHighHalf unit then lowHalf? cs else none) with
    | some (low, rest) =>
      let (points, rest) ← readString? fuel rest
      some (pairPoint unit low :: points, rest)
    | none =>
      let (points, rest) ← readString? fuel cs
      some (unit :: points, rest)
  | fuel + 1, '\\' :: c :: cs => do
    let c ← simpleEscape? c
    let (points, rest) ← readString? fuel cs
    some (c.toNat :: points, rest)
  | fuel + 1, c :: cs =>
    if c = '\\' ∨ c.toNat < 0x20 then none
    else do
      let (points, rest) ← readString? fuel cs
      some (c.toNat :: points, rest)

/-! ## 3. Numbers -/

/-- The ASCII digits at the front of a text and the rest. -/
def asciiDigits (cs : List Char) : List Char × List Char :=
  (cs.takeWhile Char.isDigit, cs.dropWhile Char.isDigit)

/-- The value of ASCII digits, continuing `value`. -/
def digitsValue (value : Nat) (cs : List Char) : Nat :=
  cs.foldl (fun v c => 10 * v + (c.toNat - 48)) value

/-- The digits of a fraction after its point, if there are any. -/
def fraction? : List Char → Option (List Char × List Char)
  | '.' :: cs =>
    let (digits, rest) := asciiDigits cs
    if digits.isEmpty then none else some (digits, rest)
  | _ => none

/-- The value of an exponent, if there is one. -/
def scale? : List Char → Option (Int × List Char)
  | c :: cs =>
    if c = 'e' ∨ c = 'E' then
      let (negative, cs) := sign cs
      let (digits, rest) := asciiDigits cs
      if digits.isEmpty then none else some (signed negative (digitsValue 0 digits), rest)
    else none
  | [] => none

/-- The digits of a whole part: a zero alone, or digits that start with another one. -/
def whole? : List Char → Option (List Char × List Char)
  | '0' :: cs => some (['0'], cs)
  | cs =>
    let (digits, rest) := asciiDigits cs
    if digits.isEmpty then none else some (digits, rest)

/-- An integer with a sign and digits. -/
def ofDigits (negative : Bool) (digits : List Char) : Except ReadFault Json :=
  if digitLimit < digits.length then .error (.tooLong digits.length)
  else .ok (.int (signed negative (digitsValue 0 digits)))

/-- A number after its sign and its whole part: an integer, unless a fraction or an exponent
    follows. -/
def readFraction (negative : Bool) (whole rest : List Char) :
    Except ReadFault (Json × List Char) :=
  match fraction? rest, scale? rest with
  | some (places, rest), _ =>
    let digits := digitsValue (digitsValue 0 whole) places
    let (e, rest) := (scale? rest).getD (0, rest)
    .ok (.float (Double.ofDecimal negative digits (e - places.length)), rest)
  | none, some (e, rest) => .ok (.float (Double.ofDecimal negative (digitsValue 0 whole) e), rest)
  | none, none => (ofDigits negative whole).map (·, rest)

/-- A number. -/
def readNumber (cs : List Char) : Except ReadFault (Json × List Char) :=
  let (negative, cs) := match cs with
    | '-' :: rest => (true, rest)
    | cs => (false, cs)
  match whole? cs with
  | some (whole, rest) => readFraction negative whole rest
  | none => .error .malformed

/-! ## 4. Values -/

/-- The words that stand for values. -/
def words : List (String × Json) :=
  [("null", .null), ("true", .bool true), ("false", .bool false),
    ("NaN", .float Double.notANumber), ("Infinity", .float Double.infinity),
    ("-Infinity", .float Double.negInfinity)]

/-- A word at the front of the text. -/
def readWord? (cs : List Char) : Option (Json × List Char) :=
  words.findSome? fun (word, value) => (afterWord? word.toList cs).map (value, ·)

/-- A string after its opening quote. -/
def readPoints (cs : List Char) : Except ReadFault (List Nat × List Char) :=
  match readString? (cs.length + 1) cs with
  | some found => .ok found
  | none => .error .malformed

mutual

/-- A value at the front of the text. -/
def readValue : Nat → List Char → Except ReadFault (Json × List Char)
  | 0, _ => .error .malformed
  | fuel + 1, cs =>
    match cs with
    | '"' :: rest => do
      let (points, rest) ← readPoints rest
      .ok (.ofPoints points, rest)
    | '[' :: rest =>
      match skipGap rest with
      | ']' :: rest => .ok (.array [], rest)
      | rest => do
        let (items, rest) ← readItems fuel rest
        .ok (.array items, rest)
    | '\x7b' :: rest =>
      match skipGap rest with
      | '\x7d' :: rest => .ok (.object [], rest)
      | rest => do
        let (fields, rest) ← readFields fuel [] rest
        .ok (.object fields, rest)
    | cs =>
      match readWord? cs with
      | some found => .ok found
      | none => readNumber cs

/-- The items of an array up to its closing bracket. -/
def readItems : Nat → List Char → Except ReadFault (List Json × List Char)
  | 0, _ => .error .malformed
  | fuel + 1, cs => do
    let (item, rest) ← readValue fuel cs
    match skipGap rest with
    | ']' :: rest => .ok ([item], rest)
    | ',' :: rest =>
      let (items, rest) ← readItems fuel (skipGap rest)
      .ok (item :: items, rest)
    | _ => .error .malformed

/-- The fields of an object up to its closing brace, added to those before. -/
def readFields : Nat → List (String × Json) → List Char →
    Except ReadFault (List (String × Json) × List Char)
  | 0, _, _ => .error .malformed
  | fuel + 1, fields, cs =>
    match cs with
    | '"' :: rest => do
      let (points, rest) ← readPoints rest
      match skipGap rest with
      | ':' :: rest =>
        let (value, rest) ← readValue fuel (skipGap rest)
        let fields := put (nearestText points) value fields
        match skipGap rest with
        | '\x7d' :: rest => .ok (fields, rest)
        | ',' :: rest => readFields fuel fields (skipGap rest)
        | _ => .error .malformed
      | _ => .error .malformed
    | _ => .error .malformed

end

/-- The document that the whole text is. An opening bracket and the value after it take two units
    of fuel, every later step one per character. -/
def read (s : String) : Except ReadFault Json := do
  let cs := s.toList
  let (value, rest) ← readValue (2 * cs.length + 2) (skipGap cs)
  if (skipGap rest).isEmpty then .ok value else .error .malformed

end Credal.Json
