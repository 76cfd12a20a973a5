import Credal.Number.Power

/-!
# Rounding a quotient

Exact quotients of natural numbers are brought to an integer, or to a number of binary digits.

* `halfEven`: the nearest integer to a quotient, a half going to the even neighbour;
* `binaryExponent`: the position of the leading binary digit of a positive quotient;
* `keepBits`, `roundRat`: a rational number with its leading `bits` binary digits only, rounded to
  nearest (a half to even);
* `decimalExponent`: the position of the leading decimal digit of a positive quotient.
-/

namespace Credal.Number

/-- The integer nearest to `num / den`; of two equally near ones the even one. -/
def halfEven (num den : Nat) : Nat :=
  let q := num / den
  let twice := 2 * (num % den)
  if twice < den then q
  else if den < twice then q + 1
  else q + q % 2

/-- `num / den` scaled by a power of two, as a quotient of natural numbers. -/
def shiftQuotient (num den : Nat) (e : Int) : Nat × Nat :=
  if 0 ≤ e then (num * twoTo e.toNat, den) else (num, den * twoTo (-e).toNat)

/-- `num / den` scaled by a power of ten, as a quotient of natural numbers. -/
def scaleQuotient (num den : Nat) (e : Int) : Nat × Nat :=
  if 0 ≤ e then (num * Nat.pow 10 e.toNat, den) else (num, den * Nat.pow 10 (-e).toNat)

/-- The exponent `e` with `2 ^ e ≤ num / den < 2 ^ (e + 1)`, for positive `num` and `den`. -/
def binaryExponent (num den : Nat) : Int :=
  let e : Int := (num.log2 : Int) - den.log2
  let (n, d) := shiftQuotient num den (-e)
  if d ≤ n then e else e - 1

/-- The exponent `e` with `10 ^ e ≤ num / den < 10 ^ (e + 1)`, for positive `num` and `den`. The
    binary exponent fixes it up to one on either side; the largest that fits is taken. -/
def decimalExponent (num den : Nat) : Int :=
  let e := (binaryExponent num den * 30103).fdiv 100000
  let fits := fun (k : Int) =>
    let (n, d) := scaleQuotient num den (-k)
    decide (d ≤ n)
  if fits (e + 1) then e + 1 else if fits e then e else e - 1

/-- `n · 2 ^ e` as a rational number. -/
def dyadicRat (n : Int) (e : Int) : Rat :=
  if 0 ≤ e then ((n * twoTo e.toNat : Int) : Rat) else mkRat n (twoTo (-e).toNat)

/-- The part of a rational number that `bits` binary digits hold, by `pick` on the quotient that
    they count; the sign is kept apart. -/
def keepBits (pick : Nat → Nat → Nat) (bits : Nat) (q : Rat) : Rat :=
  if q.num = 0 then 0
  else
    let n := q.num.natAbs
    let e := binaryExponent n q.den - (bits : Int) + 1
    let (a, b) := shiftQuotient n q.den (-e)
    let m := pick a b
    dyadicRat (if q.num < 0 then -(m : Int) else m) e

/-- The number rounded to its leading `bits` binary digits, a half going to even. -/
def roundRat (bits : Nat) (q : Rat) : Rat := keepBits halfEven bits q

end Credal.Number
