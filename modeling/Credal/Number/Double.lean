import Credal.Number.Rounding

/-!
# Doubles and exact numbers

A double is a rational number `± m · 2 ^ e`, an infinity or not a number. This module reads the
exact value off the bits and finds the double nearest to an exact value.

* `Parts`, `parts?`: sign, significand and exponent of a finite double;
* `toRat?`: its exact value;
* `ofQuotient`, `ofRat`: the nearest double, a half going to the even significand, a value past
  the largest double to an infinity;
* `ofDecimal`: the double nearest to `digits · 10 ^ exponent`;
* `ofInt?`: the double nearest to an integer, none where only an infinity is near;
* `integer?`: the value of an integral double.
-/

namespace Credal.Number.Double

open Credal.Number

/-- A finite double `± significand · 2 ^ exponent`, as its bits give it. -/
structure Parts where
  negative : Bool
  significand : Nat
  exponent : Int
  deriving DecidableEq, Repr

/-- The parts of a finite double; none for infinities and for what is not a number. -/
def parts? (x : Float) : Option Parts :=
  let bits : Nat := x.toBits.toNat
  let field : Nat := bits / twoTo 52 % twoTo 11
  let fraction : Nat := bits % twoTo 52
  let negative := decide (twoTo 63 ≤ bits)
  if field = 2047 then none
  else if field = 0 then some ⟨negative, fraction, -1074⟩
  else some ⟨negative, fraction + twoTo 52, (field : Int) - 1075⟩

/-- The significand with its sign. -/
def Parts.signed (p : Parts) : Int :=
  if p.negative then -(p.significand : Int) else p.significand

/-- The exact value of the parts. -/
def Parts.toRat (p : Parts) : Rat := dyadicRat p.signed p.exponent

/-- The exact value of a finite double. -/
def toRat? (x : Float) : Option Rat := (parts? x).map Parts.toRat

/-- The double with the given sign bit and the remaining 63 bits. -/
def ofFields (negative : Bool) (magnitude : Nat) : Float :=
  Float.ofBits (UInt64.ofNat ((if negative then twoTo 63 else 0) + magnitude))

/-- Positive infinity. -/
def infinity : Float := ofFields false (2047 * twoTo 52)

/-- Negative infinity. -/
def negInfinity : Float := ofFields true (2047 * twoTo 52)

/-- The double that is not a number. -/
def notANumber : Float := ofFields false (2047 * twoTo 52 + twoTo 51)

/-- The double nearest to `± num / den`: the quotient is counted in units of the last place of
    its binade, which below the normal doubles is that of the least one. A carry into the next
    binade leaves the right bits by itself. -/
def ofQuotient (negative : Bool) (num den : Nat) : Float :=
  if num = 0 then ofFields negative 0
  else
    let e := max (binaryExponent num den - 52) (-1074)
    if 972 ≤ e then ofFields negative (2047 * twoTo 52)
    else
      let (a, b) := shiftQuotient num den (-e)
      let m := halfEven a b
      ofFields negative ((e + 1074).toNat * twoTo 52 + m)

/-- The double nearest to a rational number; zero is positive. -/
def ofRat (q : Rat) : Float := ofQuotient (decide (q.num < 0)) q.num.natAbs q.den

/-- The double nearest to `± digits · 10 ^ exponent`. Exponents that put the value far outside the
    doubles are decided by the number of digits, so that no huge power is formed. -/
def ofDecimal (negative : Bool) (digits : Nat) (exponent : Int) : Float :=
  if digits = 0 then ofFields negative 0
  else
    let magnitude := exponent + (digits.log2 : Int) / 4
    if 400 < magnitude then ofFields negative (2047 * twoTo 52)
    else if exponent + (digits.log2 : Int) < -400 then ofFields negative 0
    else
      let (n, d) := scaleQuotient digits 1 exponent
      ofQuotient negative n d

/-- The double nearest to an integer, or none when that would be an infinity. -/
def ofInt? (i : Int) : Option Float :=
  let x := ofQuotient (decide (i < 0)) i.natAbs 1
  if (parts? x).isSome then some x else none

/-- The value of a double that is an integer. -/
def integer? (x : Float) : Option Int :=
  (parts? x).bind fun p =>
    if 0 ≤ p.exponent then some (p.signed * twoTo p.exponent.toNat)
    else
      let unit := twoTo (-p.exponent).toNat
      if p.significand % unit = 0 then some (p.signed.tdiv unit) else none

/-- The integer part of a finite double. -/
def truncate? (x : Float) : Option Int :=
  (parts? x).map fun p =>
    if 0 ≤ p.exponent then p.signed * twoTo p.exponent.toNat
    else p.signed.tdiv (twoTo (-p.exponent).toNat)

/-- Whether the sign bit is set. -/
def isNegative (x : Float) : Bool := decide (twoTo 63 ≤ x.toBits.toNat)

end Credal.Number.Double
