import Credal.Exact.Algebraic
import Credal.Number.Shortest

/-!
# Exact numbers

The values of exact arithmetic are the real algebraic numbers, the two infinities and what is
undefined. Arithmetic with infinities follows limits where all limits agree, and is undefined
where they do not; an undefined operand makes every result undefined but its zeroth power. A power
is undefined if it is not real, in particular a root of a negative number.

A power with an irrational exponent is as a rule not algebraic. It is kept as an expression, and so
is everything that is calculated from it. What such an expression amounts to, and its sign, is left
to a computer algebra system.

* `Exact`: the values;
* `Exact.ofDouble`: a double as its shortest decimal;
* `AlgebraSystem`: the answers of a computer algebra system;
* `Exact.sign?`: the sign, none where there is none or it cannot be decided;
* `add`, `negate`, `sub`, `mul`, `div`, `power`: arithmetic;
* `Exact.toDouble`: the double of an approximation to thirty decimal digits.
-/

namespace Credal

open Credal.Number

/-- A value of exact arithmetic. The last five are expressions: one of their parts is a power with
    an irrational exponent. -/
inductive Exact where
  | finite (a : Algebraic)
  | infinite (negative : Bool)
  | undefined
  | opposite (x : Exact)
  | sum (x y : Exact)
  | product (x y : Exact)
  | reciprocal (x : Exact)
  | raised (base exponent : Exact)
  deriving DecidableEq, Repr

/-- What a computer algebra system answers when it is asked about a value. It simplifies an
    expression first; a missing answer is one that it cannot decide. -/
structure AlgebraSystem where
  /-- The rational number that an expression is simplified to. -/
  rational? : Exact → Option Rat := fun _ => none
  /-- Whether an expression is simplified to what is undefined. -/
  isUndefined : Exact → Bool := fun _ => false
  /-- Whether an expression is simplified to an infinity without a direction. -/
  isUnsignedInfinity : Exact → Bool := fun _ => false
  isReal? : Exact → Option Bool := fun _ => none
  isZero? : Exact → Option Bool := fun _ => none
  isPositive? : Exact → Option Bool := fun _ => none
  isNegative? : Exact → Option Bool := fun _ => none
  /-- Whether the minimal polynomial of a number is that of zero, for an algebraic number. -/
  isAlgebraicZero? : Exact → Option Bool := fun _ => none
  /-- An approximation to thirty decimal digits, for a real number. -/
  approximation? : Exact → Option Rat := fun _ => none

namespace Exact

/-- A rational number. -/
def ofRat (q : Rat) : Exact := .finite (.rational q)

/-- A double stands for its shortest decimal. -/
def ofDouble (x : Float) : Exact :=
  match Double.shortest? x with
  | some q => ofRat q
  | none => if x.isNaN then .undefined else .infinite (Double.isNegative x)

/-! ## 1. Signs -/

/-- The sign of an expression. What is known to be no real number has none; a number that is known
    to be algebraic is zero or shows its sign in an approximation. -/
def askedSign? (sys : AlgebraSystem) (x : Exact) : Option Int :=
  match sys.rational? x with
  | some q => some q.num.sign
  | none =>
    if sys.isUndefined x || sys.isReal? x = some false then none
    else if sys.isZero? x = some true then some 0
    else if sys.isPositive? x = some true then some 1
    else if sys.isNegative? x = some true then some (-1)
    else
      match sys.isAlgebraicZero? x with
      | none => none
      | some true => some 0
      | some false => (sys.approximation? x).map fun q => if 0 < q then 1 else -1

/-- The sign: one, zero or minus one. -/
def sign? (sys : AlgebraSystem) : Exact → Option Int
  | .finite a => some a.sign
  | .infinite negative => some (if negative then -1 else 1)
  | .undefined => none
  | x => askedSign? sys x

/-! ## 2. Arithmetic -/

/-- The negative. -/
def negate : Exact → Exact
  | .finite a => .finite a.negate
  | .infinite negative => .infinite (!negative)
  | .undefined => .undefined
  | x => .opposite x

/-- The sum; opposite infinities have none. -/
def add : Exact → Exact → Exact
  | .undefined, _ => .undefined
  | _, .undefined => .undefined
  | .finite a, .finite b => .finite (a.plus b)
  | .finite _, .infinite negative => .infinite negative
  | .infinite negative, .finite _ => .infinite negative
  | .infinite m, .infinite n => if m = n then .infinite m else .undefined
  | x, y => .sum x y

/-- The difference. -/
def sub (x y : Exact) : Exact := add x y.negate

/-- An infinity times a number of the given sign. -/
def infiniteTimes (negative : Bool) (sign : Int) : Exact :=
  if sign = 0 then .undefined else .infinite (negative != decide (sign < 0))

/-- The product; an infinity times zero has none. -/
def mul : Exact → Exact → Exact
  | .undefined, _ => .undefined
  | _, .undefined => .undefined
  | .finite a, .finite b => .finite (a.times b)
  | .finite a, .infinite negative => infiniteTimes negative a.sign
  | .infinite negative, .finite b => infiniteTimes negative b.sign
  | .infinite m, .infinite n => .infinite (m != n)
  | x, y => .product x y

/-- The inverse of a number other than zero. -/
def inverse : Exact → Exact
  | .finite a => .finite a.inverse
  | .infinite _ => ofRat 0
  | .undefined => .undefined
  | x => .reciprocal x

/-- The quotient, for a divisor other than zero. -/
def div (x y : Exact) : Exact := mul x y.inverse

/-! ## 3. Powers -/

/-- A power as an expression, unless it is known not to be real. -/
def expressedPower (sys : AlgebraSystem) (base exponent : Exact) : Exact :=
  let x := .raised base exponent
  if sys.isUnsignedInfinity x || sys.isReal? x = some false then .undefined else x

/-- A finite power. Zero to a negative exponent is infinite; a power of another number than zero and
    one with an irrational exponent is an expression. -/
def finitePower (sys : AlgebraSystem) (a e : Algebraic) : Exact :=
  let a := a.settle
  let e := e.settle
  if a.sign = 0 then
    if e.sign = 0 then ofRat 1 else if e.sign < 0 then .infinite false else ofRat 0
  else if a = .rational 1 then ofRat 1
  else
    match e with
    | .rational q =>
      if q = 0 then ofRat 1
      else if 0 < a.sign ∨ q.den = 1 then .finite (a.raise q)
      else .undefined
    | e => expressedPower sys (.finite a) (.finite e)

/-- A finite base to an infinite exponent, by how the base compares with minus one, zero and one.
    Below minus one the powers have no limit, but those of an integer to minus infinity vanish. -/
def infinitePower (a : Algebraic) (negative : Bool) : Exact :=
  let a := a.settle
  let size := if a.sign < 0 then a.negate else a
  let beyondOne := (size.minus (.rational 1)).sign
  if a.sign = 0 then (if negative then .infinite false else ofRat 0)
  else if beyondOne = 0 then .undefined
  else if beyondOne < 0 then
    if !negative then ofRat 0 else if 0 < a.sign then .infinite false else .undefined
  else if 0 < a.sign then (if negative then ofRat 0 else .infinite false)
  else
    match a with
    | .rational q => if negative ∧ q.den = 1 then ofRat 0 else .undefined
    | _ => .undefined

/-- An infinite base to a finite exponent. -/
def powerOfInfinite (sys : AlgebraSystem) (negative : Bool) (e : Algebraic) : Exact :=
  let e := e.settle
  if e.sign = 0 then ofRat 1
  else if e.sign < 0 then ofRat 0
  else if !negative then .infinite false
  else
    match e with
    | .rational q => if q.den = 1 then .infinite (q.num % 2 = 1) else .undefined
    | e => expressedPower sys (.infinite true) (.finite e)

/-- The power. That of an expression, or with one for its exponent, is an expression again; zero to
    a negative exponent is infinite here, too. -/
def power (sys : AlgebraSystem) : Exact → Exact → Exact
  | _, .undefined => .undefined
  | .undefined, .finite e => if e.sign = 0 then ofRat 1 else .undefined
  | .undefined, .infinite _ => .undefined
  | .finite a, .finite e => finitePower sys a e
  | .finite a, .infinite negative => infinitePower a negative
  | .infinite negative, .finite e => powerOfInfinite sys negative e
  | .infinite true, .infinite _ => .undefined
  | .infinite false, .infinite negative => if negative then ofRat 0 else .infinite false
  | x, y =>
    if sign? sys x = some 0 ∧ sign? sys y = some (-1) then .infinite false
    else expressedPower sys x y

/-! ## 4. Doubles -/

/-- The double of an approximation: it is rounded to the digits of a double, and then to one. -/
def ofApproximation (q : Rat) : Float := Double.ofRat (roundRat 53 q)

/-- The double of a number, by way of its approximation. It is not always the nearest double: a
    number next to the middle between two doubles may be approximated by the middle. What has no
    approximation is not a number. -/
def toDouble (sys : AlgebraSystem) : Exact → Float
  | .infinite negative => if negative then Double.negInfinity else Double.infinity
  | .undefined => Double.notANumber
  | x =>
    match sys.approximation? x with
    | some q => ofApproximation q
    | none => Double.notANumber

end Exact

end Credal
