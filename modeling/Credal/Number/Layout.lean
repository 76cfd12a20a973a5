import Credal.Number.Shortest

/-!
# Writing numbers

How decimals are laid out as text, and the layouts that this library uses.

* `Layout`: where positional notation ends, whether a whole number keeps its point;
* `Layout.text`: a decimal in a layout;
* `Double.text`: a double by its shortest decimal, always marked as a number that is not an
  integer;
* `Double.plain`: the same, but an integral double as the digits of its exact value;
* `Double.sixDigits`: a double rounded to six significant digits.
-/

namespace Credal.Number

/-- The decimal digits of a natural number. -/
def natText (n : Nat) : List Char := Nat.toDigits 10 n

/-- The digits of an integer with its sign. -/
def intText (i : Int) : String :=
  if i < 0 then String.ofList ('-' :: natText i.natAbs) else String.ofList (natText i.natAbs)

/-- A layout of decimals: the scientific exponents that are written positionally and whether a
    whole number is written with a point and a zero. -/
structure Layout where
  leastPositional : Int
  endPositional : Int
  pointZero : Bool
  deriving DecidableEq, Repr

/-- The exponent of a number in scientific notation: a sign and at least two digits. -/
def exponentText (e : Int) : List Char :=
  let digits := natText e.natAbs
  let padded := if digits.length < 2 then '0' :: digits else digits
  'e' :: (if e < 0 then '-' else '+') :: padded

/-- A decimal without trailing zeros in the given layout. -/
def Layout.text (l : Layout) (d : Decimal) : List Char :=
  let digits := natText d.digits
  let lead : Int := if d.digits = 0 then 0 else d.exponent + digits.length - 1
  if l.leastPositional ≤ lead ∧ lead < l.endPositional then
    if 0 ≤ d.exponent then
      digits ++ List.replicate d.exponent.toNat '0' ++ (if l.pointZero then ['.', '0'] else [])
    else if 0 ≤ lead then
      digits.take (lead.toNat + 1) ++ '.' :: digits.drop (lead.toNat + 1)
    else
      '0' :: '.' :: List.replicate (-lead - 1).toNat '0' ++ digits
  else
    let fraction := digits.drop 1
    digits.take 1 ++ (if fraction.isEmpty then [] else '.' :: fraction) ++ exponentText lead

namespace Double

/-- Doubles in answers: positional from `10 ^ -4` up to below `10 ^ 16`, whole numbers with
    a point and a zero. -/
def shortestLayout : Layout := ⟨-4, 16, true⟩

/-- Approximations in reports: positional from `10 ^ -4` up to below `10 ^ 6`, whole numbers
    without a point. -/
def approximateLayout : Layout := ⟨-4, 6, false⟩

/-- A double with its sign, the magnitude of a finite one written by `finite`. -/
def textWith (finite : Parts → List Char) (x : Float) : String :=
  match parts? x with
  | some p => String.ofList ((if p.negative then ['-'] else []) ++ finite p)
  | none => if x.isNaN then "nan" else if isNegative x then "-inf" else "inf"

/-- The shortest decimal that reads back. -/
def text (x : Float) : String :=
  textWith (fun p =>
    shortestLayout.text (if p.significand = 0 then ⟨0, 0⟩ else Shortest.ofParts p)) x

/-- An integral double as the digits of its exact value, another one by its shortest decimal. -/
def plain (x : Float) : String :=
  match integer? x with
  | some i => intText i
  | none => text x

/-- The decimal of six digits nearest to a positive quotient, a half going to the even digit. -/
def sixDigitDecimal (num den : Nat) : Decimal :=
  let grid := decimalExponent num den - 5
  let (n, d) := scaleQuotient num den (-grid)
  (Decimal.mk (halfEven n d) grid).strip

/-- A double rounded to six significant digits, without trailing zeros. -/
def sixDigits (x : Float) : String :=
  textWith (fun p =>
    approximateLayout.text
      (if p.significand = 0 then ⟨0, 0⟩
      else
        let (n, d) := shiftQuotient p.significand 1 p.exponent
        sixDigitDecimal n d)) x

end Double

end Credal.Number
