import Credal.Model.Value
import Credal.Number.Numeral
import Credal.SExpr.Shown

/-!
# Decoding model values

How the terms of a solver's model are read. A root object holds a sum of monomials in the variable
`x` with falling degrees; a monomial is an integer, a power of `x`, the negative of either, or the
product of an integer and a power.

* `DecodeFault`: why a term is no value;
* `monomial`: the coefficient and the degree of a monomial;
* `coefficientsOf`: the coefficients of a sum of monomials;
* `ModelValue.decode`: the value of a term.
-/

namespace Credal

open Credal.Number

/-- What an integer stands for in a root object. -/
inductive IntegerRole where
  | exponent
  | constant
  | coefficient
  | rootIndex
  deriving DecidableEq, Repr

/-- The name of a role. -/
def IntegerRole.text : IntegerRole → String
  | .exponent => "exponent"
  | .constant => "constant"
  | .coefficient => "coefficient"
  | .rootIndex => "root index"

/-- Why a term is no value. -/
inductive DecodeFault where
  | notNumeral (atom : String)
  | notInteger (role : IntegerRole) (s : SExpr)
  | notMonomial (s : SExpr)
  | notRootObject (s : SExpr)
  | notSum (s : SExpr)
  | notFalling (degree previous : Int)
  /-- Degrees do not fall, and one of them is too long to be reported. -/
  | unwritable
  /-- So many coefficients between two monomials are more than fit into memory. -/
  | gapTooLarge (size : Int)
  /-- A numeral is a quotient by zero. -/
  | zeroDenominator
  deriving DecidableEq, Repr

/-- The message of a fault that describes the term. -/
def DecodeFault.message? : DecodeFault → Option String
  | .notNumeral t => some ("expected a numeral, got " ++ (SExpr.atom t).shown)
  | .notInteger role s => some ("expected an integer " ++ role.text ++ ", got " ++ s.shown)
  | .notMonomial s => some ("unexpected monomial " ++ s.text)
  | .notRootObject s => some ("root-obj expects a polynomial and an index: " ++ s.text)
  | .notSum s => some ("root-obj polynomial is not a sum of monomials: " ++ s.text)
  | .notFalling e previous =>
    some ("expected exponents to strictly decrease, got " ++ intText e ++ " after "
      ++ intText previous)
  | .unwritable => some unwritableText
  | .gapTooLarge _ | .zeroDenominator => none

/-! ## 1. Integers -/

/-- The value of an integer numeral; none for any other term. -/
def integerValue? : SExpr → Except DecodeFault (Option Int)
  | .atom t =>
    match readRational t with
    | .ok q => .ok (if q.den = 1 then some q.num else none)
    | .error .malformed => .ok none
    | .error .zeroDenominator => .error .zeroDenominator
  | .list _ => .ok none

/-- The value of an integer numeral that is required. -/
def requireInteger (role : IntegerRole) (s : SExpr) : Except DecodeFault Int := do
  match ← integerValue? s with
  | some i => .ok i
  | none => .error (.notInteger role s)

/-- A coefficient: an integer numeral or a negated one. -/
def coefficient : SExpr → Except DecodeFault Int
  | .list [.atom "-", s] => do .ok (-(← requireInteger .coefficient s))
  | s => requireInteger .coefficient s

/-! ## 2. Polynomials -/

/-- The degree of a power of the variable; none for any other term. -/
def powerDegree? : SExpr → Except DecodeFault (Option Int)
  | .atom "x" => .ok (some 1)
  | .list [.atom "^", .atom "x", d] => some <$> requireInteger .exponent d
  | _ => .ok none

/-- The negative of a power or of an integer. -/
def negatedMonomial (s : SExpr) : Except DecodeFault (Int × Int) := do
  match ← powerDegree? s with
  | some d => .ok (-1, d)
  | none => .ok (-(← requireInteger .constant s), 0)

/-- The product of an integer and a power. -/
def productMonomial (whole c s : SExpr) : Except DecodeFault (Int × Int) := do
  match ← powerDegree? s with
  | some d => .ok (← coefficient c, d)
  | none => .error (.notMonomial whole)

/-- The coefficient and the degree of a monomial. -/
def monomial (s : SExpr) : Except DecodeFault (Int × Int) := do
  match ← powerDegree? s with
  | some d => .ok (1, d)
  | none =>
    match ← integerValue? s with
    | some c => .ok (c, 0)
    | none =>
      match s with
      | .list [.atom "-", t] => negatedMonomial t
      | .list [.atom "*", c, t] => productMonomial s c t
      | _ => .error (.notMonomial s)

/-- So many zeros, none for a number below zero. At most `room` fit into memory. -/
def zeros (room : Nat) (n : Int) : Except DecodeFault Poly :=
  if n ≤ room then .ok (List.replicate n.toNat 0) else .error (.gapTooLarge n)

/-- The fault of a degree that is not below the one before it. -/
def fallFault (degree previous : Int) : DecodeFault :=
  if isWritable degree && isWritable previous then .notFalling degree previous else .unwritable

/-- The coefficients after a monomial of degree `previous`, down to the constant: zeros fill the
    places of the degrees that are left out. -/
def coefficientsAfter (room : Nat) (previous : Int) : List SExpr → Except DecodeFault Poly
  | [] => zeros room previous
  | s :: rest => do
    let (c, d) ← monomial s
    if previous ≤ d then .error (fallFault d previous)
    let gap ← zeros room (previous - d - 1)
    .ok (gap ++ c :: (← coefficientsAfter room d rest))

/-- The coefficients of a sum of monomials. -/
def coefficientsOf (room : Nat) (s : SExpr) : Except DecodeFault Poly :=
  match s with
  | .list (.atom "+" :: first :: rest) => do
    let (c, d) ← monomial first
    .ok (c :: (← coefficientsAfter room d rest))
  | s => .error (.notSum s)

/-! ## 3. Values -/

/-- The value of a numeral. -/
def numeralValue (t : String) : Except DecodeFault Rat :=
  match readRational t with
  | .ok q => .ok q
  | .error .malformed => .error (.notNumeral t)
  | .error .zeroDenominator => .error .zeroDenominator

/-- The root object with the given parts. -/
def rootValue (room : Nat) (whole : SExpr) : List SExpr → Except DecodeFault ModelValue
  | [p, index] => do
    let index ← requireInteger .rootIndex index
    .ok (.root index (← coefficientsOf room p))
  | _ => .error (.notRootObject whole)

/-- The value of a term, with memory for `room` zeros between monomials. -/
def ModelValue.decode (room : Nat) : SExpr → Except DecodeFault ModelValue
  | .atom t => .literal <$> numeralValue t
  | .list [.atom "-", s] => .negative <$> decode room s
  | .list [.atom "/", a, b] => do .ok (.quotient (← decode room a) (← decode room b))
  | .list (.atom "root-obj" :: parts) => rootValue room (.list (.atom "root-obj" :: parts)) parts
  | s => .ok (.unknown s)

end Credal
