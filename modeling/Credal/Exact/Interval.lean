import Credal.Number.Double

/-!
# Intervals of binary fractions

An interval holds a real number between two multiples of `1 / 2 ^ n`, where the number `n` of
binary places is the same for all intervals of a calculation. Every operation rounds outward, so
that the result holds whatever the operands hold.

* `Interval`: the two ends, counted in units of `1 / 2 ^ n`;
* `add`, `neg`, `mul`, `inv?`, `sqrt`, `pow`: the operations;
* `fractionalPower`: a power with an exponent between zero and one, by square roots;
* `simplestBetween`: the rational number of least denominator in an interval.
-/

namespace Credal

open Credal.Number

/-- The integer part of the square root: Newton's iteration from above, as long as it falls. -/
def sqrtFloor (n : Nat) : Nat :=
  go (n.log2 + 2) (twoTo (n.log2 / 2 + 1))
where
  /-- The iteration; each step at least halves the error, so that `fuel` steps are enough. -/
  go : Nat → Nat → Nat
    | 0, x => x
    | fuel + 1, x =>
      let y := (x + n / x) / 2
      if y < x then go fuel y else x

/-- An interval between two multiples of a unit. -/
structure Interval where
  lo : Int
  hi : Int
  deriving DecidableEq, Repr

namespace Interval

/-- `x / 2 ^ n` rounded down. -/
def shiftDown (n : Nat) (x : Int) : Int := x >>> n

/-- `x / 2 ^ n` rounded up. -/
def shiftUp (n : Nat) (x : Int) : Int := -((-x) >>> n)

/-- The interval around a rational number. -/
def ofRat (n : Nat) (q : Rat) : Interval :=
  let x := q.num * twoTo n
  ⟨x.fdiv q.den, -(-x).fdiv q.den⟩

/-- The interval around one. -/
def one (n : Nat) : Interval := ⟨twoTo n, twoTo n⟩

/-- The sum. -/
def add (a b : Interval) : Interval := ⟨a.lo + b.lo, a.hi + b.hi⟩

/-- The negative. -/
def neg (a : Interval) : Interval := ⟨-a.hi, -a.lo⟩

/-- The product: the ends are among the four products of ends. -/
def mul (n : Nat) (a b : Interval) : Interval :=
  let p := a.lo * b.lo
  let q := a.lo * b.hi
  let r := a.hi * b.lo
  let s := a.hi * b.hi
  ⟨shiftDown n (min (min p q) (min r s)), shiftUp n (max (max p q) (max r s))⟩

/-- The inverse, for an interval that does not hold zero. -/
def inv? (n : Nat) (a : Interval) : Option Interval :=
  if 0 < a.lo ∨ a.hi < 0 then
    let one : Int := twoTo (2 * n)
    some ⟨one.fdiv a.hi, -(-one).fdiv a.lo⟩
  else none

/-- The square root of a number that is not negative. -/
def sqrt (n : Nat) (a : Interval) : Interval :=
  ⟨sqrtFloor ((max a.lo 0).toNat * twoTo n), sqrtFloor ((max a.hi 0).toNat * twoTo n) + 1⟩

/-- A power with a natural exponent, by repeated squaring; the number of binary digits of the
    exponent is fuel enough. -/
def powWithin (n : Nat) : Nat → Interval → Nat → Interval
  | 0, _, _ => one n
  | fuel + 1, a, k =>
    if k = 0 then one n
    else
      let half := powWithin n fuel (mul n a a) (k / 2)
      if k % 2 = 1 then mul n a half else half

/-- A power with a natural exponent. -/
def pow (n : Nat) (a : Interval) (k : Nat) : Interval := powWithin n (k.log2 + 1) a k

/-- A power with an integer exponent. -/
def zpow? (n : Nat) (a : Interval) (k : Int) : Option Interval :=
  if 0 ≤ k then some (pow n a k.toNat) else inv? n (pow n a k.natAbs)

/-- The smallest interval that holds two intervals. -/
def hull (a b : Interval) : Interval := ⟨min a.lo b.lo, max a.hi b.hi⟩

/-- The binary digits of `exponent`, below one, say which of the iterated square roots of the base
    are multiplied. What remains after the last digit is the power of a root with an exponent
    between zero and one, so it lies between one and that root. -/
def rootProduct (n : Nat) : Nat → Interval → Rat → Interval → Interval
  | 0, root, exponent, acc => if exponent = 0 then acc else mul n acc (hull (one n) root)
  | fuel + 1, root, exponent, acc =>
    if exponent = 0 then acc
    else
      let root := sqrt n root
      let twice := 2 * exponent
      if 1 ≤ twice then rootProduct n fuel root (twice - 1) (mul n acc root)
      else rootProduct n fuel root twice acc

/-- A power of a positive number with an exponent between zero and one. -/
def fractionalPower (n : Nat) (a : Interval) (exponent : Rat) : Interval :=
  rootProduct n n a exponent (one n)

/-- A power of a positive number, or of any number but zero with an integer exponent. -/
def power? (n : Nat) (a : Interval) (exponent : Rat) : Option Interval :=
  let whole := exponent.floor
  let rest := exponent - whole
  (zpow? n a whole).map fun p => if rest = 0 then p else mul n p (fractionalPower n a rest)

end Interval

/-- The rational number of least denominator between `a / b` and `c / d`, for positive
    denominators and `a / b ≤ c / d`: an integer if there is one, else the common integer part and
    the inverse of the simplest number between the inverted rests. The denominators fall like those
    of Euclid's algorithm, so twice their binary digits are fuel enough. -/
def simplestWithin : Nat → Int → Int → Int → Int → Rat
  | 0, a, b, _, _ => mkRat a b.natAbs
  | fuel + 1, a, b, c, d =>
    let whole := a.fdiv b
    if whole * b = a then whole
    else if (whole + 1) * d ≤ c then whole + 1
    else whole + (simplestWithin fuel d (c - whole * d) b (a - whole * b))⁻¹

/-- The rational number of least denominator in an interval of `n` binary places. -/
def simplestBetween (n : Nat) (a : Interval) : Rat :=
  simplestWithin (2 * n + 2) a.lo (twoTo n) a.hi (twoTo n)

end Credal
