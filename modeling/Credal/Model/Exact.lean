import Credal.Exact.Number
import Credal.Model.Value
import Credal.SExpr.Shown

/-!
# The number that a model value denotes

Literals denote themselves, negation and quotients act as they do on numbers, and a root object
denotes a real root of its polynomial, the distinct roots counted from one in ascending order.

* `ValueFault`: why a value denotes no number;
* `ModelValue.exact`: the number;
* `ModelValue.toDouble`: its double.
-/

namespace Credal

open Credal.Number

/-- Why a value denotes no number. -/
inductive ValueFault where
  | zeroPolynomial
  /-- The polynomial has only so many real roots. -/
  | rootIndex (index : Int) (count : Nat)
  /-- The index is out of range, and it or the polynomial is too long to be reported. -/
  | unwritable
  | zeroDivisor
  | unknown (s : SExpr)
  deriving DecidableEq, Repr

/-- The message of a fault; the polynomial is not spelled out. -/
def ValueFault.message : ValueFault → String
  | .zeroPolynomial => "root-obj of the zero polynomial"
  | .rootIndex index count =>
    "root index " ++ intText index ++ " out of range, <poly> has " ++ intText count
      ++ " real root(s)"
  | .unwritable => unwritableText
  | .zeroDivisor => "rational model value with a zero denominator"
  | .unknown s => "cannot evaluate unrecognized model value " ++ s.shown

/-- The root of a polynomial with a given number. -/
def rootNumber (index : Int) (p : Poly) : Except ValueFault Algebraic :=
  if p.trim.isEmpty then .error .zeroPolynomial
  else if 1 ≤ index ∧ index ≤ p.rootCount then .ok (.ofRoot p index.toNat)
  else if isWritable index && p.all isWritable then .error (.rootIndex index p.rootCount)
  else .error .unwritable

namespace ModelValue

/-- The number that a value denotes. A divisor is looked at before its dividend. -/
def exact : ModelValue → Except ValueFault Algebraic
  | .literal q => .ok (.rational q)
  | .negative v => do .ok (← v.exact).negate
  | .quotient a b => do
    let b ← b.exact
    if b = .rational 0 then .error .zeroDivisor
    .ok ((← a.exact).times b.inverse)
  | .root index p => rootNumber index p
  | .unknown s => .error (.unknown s)

/-- The double of the number that a value denotes. -/
def toDouble (sys : AlgebraSystem) (v : ModelValue) : Except ValueFault Float := do
  .ok ((Exact.finite (← v.exact)).toDouble sys)

end ModelValue

end Credal
