import Credal.Exact.Number
import Credal.Language.Constraint

/-!
# Number systems

Expressions are evaluated over doubles or over exact numbers. Over doubles equality and the weak
inequalities allow for a tolerance, strict inequalities do not. Over exact numbers a comparison is
decided by the sign of the difference; a difference without a sign is unequal and nothing else.

* `Arithmetic`: the operations that an evaluation needs;
* `Relation.holdsNear`, `Arithmetic.double`: doubles with a tolerance;
* `Relation.holdsBySign`, `Arithmetic.exact`: exact numbers.
-/

namespace Credal

open Credal.Number

/-- A number system. The quotient is missing where the divisor is zero. -/
structure Arithmetic (α : Type) where
  ofDouble : Float → α
  add : α → α → α
  sub : α → α → α
  mul : α → α → α
  negate : α → α
  divide? : α → α → Option α
  power : α → α → α
  compare : Relation → α → α → Bool

/-- The result of an operator. -/
def Arithmetic.apply {α : Type} (A : Arithmetic α) : ArithOp → α → α → α
  | .plus => A.add
  | .minus => A.sub
  | .times => A.mul

/-! ## 1. Doubles -/

/-- Whether a comparison of doubles holds within a tolerance. -/
def Relation.holdsNear (tolerance : Float) : Relation → Float → Float → Bool
  | .equal, l, r => (l - r).abs ≤ tolerance
  | .notEqual, l, r => !((l - r).abs ≤ tolerance)
  | .less, l, r => l < r
  | .lessEqual, l, r => l ≤ r + tolerance
  | .greater, l, r => l > r
  | .greaterEqual, l, r => l + tolerance ≥ r

/-- A power of doubles. Zero of either sign to a negative finite power is infinity. -/
def doublePower (base exponent : Float) : Float :=
  if base == 0 && exponent < 0 && exponent.isFinite then Double.infinity
  else Float.pow base exponent

namespace Arithmetic

/-- Doubles, compared within a tolerance. -/
def double (tolerance : Float) : Arithmetic Float where
  ofDouble x := x
  add := (· + ·)
  sub := (· - ·)
  mul := (· * ·)
  negate x := -x
  divide? x y := if y == 0 then none else some (x / y)
  power := doublePower
  compare r := r.holdsNear tolerance

/-- The tolerance of comparisons where none is asked for. -/
def defaultTolerance : Float := 1e-14

end Arithmetic

/-! ## 2. Exact numbers -/

/-- Whether a comparison holds for operands whose difference has the given sign. -/
def Relation.holdsBySign : Relation → Option Int → Bool
  | .equal, s => s = some 0
  | .notEqual, s => s ≠ some 0
  | .less, s => s = some (-1)
  | .lessEqual, s => s = some (-1) || s = some 0
  | .greater, s => s = some 1
  | .greaterEqual, s => s = some 1 || s = some 0

namespace Arithmetic

/-- Exact numbers, with a computer algebra system. -/
def exact (sys : AlgebraSystem) : Arithmetic Exact where
  ofDouble := Exact.ofDouble
  add := Exact.add
  sub := Exact.sub
  mul := Exact.mul
  negate := Exact.negate
  divide? x y := if y.sign? sys = some 0 then none else some (x.div y)
  power := Exact.power sys
  compare r x y := r.holdsBySign ((x.sub y).sign? sys)

end Arithmetic

end Credal
