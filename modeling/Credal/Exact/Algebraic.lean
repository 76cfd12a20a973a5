import Credal.Exact.Interval
import Credal.Polynomial.Locate

/-!
# Algebraic numbers

A real algebraic number is an expression: rational numbers and real roots of integer polynomials,
joined by sums, products, inverses and powers. Operations on rational numbers are carried out at
once; all others are kept as they are, and a question about the number is answered by enclosing it
in an interval.

Whether a number is zero, or rational, is decided by its height. A number of height at most `2 ^ h`
in a field of degree at most `d` is zero or at least `2 ^ (- d h)` in size, and if it is rational
then its numerator and denominator are at most `2 ^ h`, so that it is the simplest number in a
narrow interval.

* `Algebraic`: the expressions, with `add`, `neg`, `mul`, `inv`;
* `Algebraic.ofRoot`: a root of a polynomial;
* `enclose?`: an interval around a number;
* `height`, `fieldDegree`: the bounds above;
* `sign`: the sign;
* `rational?`: the value of a rational number.
-/

namespace Credal

/-- A real algebraic number. In `root p k` the polynomial is squarefree and its `k`-th root is not
    rational; in `inv a` the number `a` is not zero; in `power a e` it is positive, or not zero and
    `e` an integer, and if `a` is `rational q` then the power is not rational. -/
inductive Algebraic where
  | rational (q : Rat)
  | root (p : Poly) (k : Nat)
  | neg (a : Algebraic)
  | add (a b : Algebraic)
  | mul (a b : Algebraic)
  | inv (a : Algebraic)
  | power (a : Algebraic) (e : Rat)
  deriving DecidableEq, Repr

namespace Algebraic

open Credal.Number

/-! ## 1. Operations -/

/-- The `k`-th distinct real root of a polynomial that has as many. -/
def ofRoot (p : Poly) (k : Nat) : Algebraic :=
  let p := p.squarefree
  match p.rationalRoot? p.chain k with
  | some q => .rational q
  | none => .root p k

/-- The negative. -/
def negate : Algebraic → Algebraic
  | .rational q => .rational (-q)
  | .neg a => a
  | a => .neg a

/-- The sum. -/
def plus (a b : Algebraic) : Algebraic :=
  match a, b with
  | .rational p, .rational q => .rational (p + q)
  | a, b =>
    if a = .rational 0 then b
    else if b = .rational 0 then a
    else if a = negate b then .rational 0
    else .add a b

/-- The difference. -/
def minus (a b : Algebraic) : Algebraic := plus a (negate b)

/-- The product. -/
def times (a b : Algebraic) : Algebraic :=
  match a, b with
  | .rational p, .rational q => .rational (p * q)
  | a, b =>
    if a = .rational 0 ∨ b = .rational 0 then .rational 0
    else if a = .rational 1 then b
    else if b = .rational 1 then a
    else .mul a b

/-- The inverse of a number other than zero. -/
def inverse : Algebraic → Algebraic
  | .rational q => .rational q⁻¹
  | .inv a => a
  | a => .inv a

/-! ## 2. Enclosures -/

/-- The interval of `n` binary places that a cell lies in. -/
def cellInterval (n : Nat) (c : Cell) : Interval :=
  if c.depth ≤ n then
    let unit : Int := twoTo (n - c.depth)
    ⟨(c.high - 1) * unit, c.high * unit⟩
  else ⟨Interval.shiftDown (c.depth - n) (c.high - 1), Interval.shiftUp (c.depth - n) c.high⟩

/-- An interval of `n` binary places around a number; none if they are too few to keep a divisor
    from zero. -/
def enclose? (n : Nat) : Algebraic → Option Interval
  | .rational q => some (.ofRat n q)
  | .root p k => some (cellInterval n (p.cell k n))
  | .neg a => (enclose? n a).map .neg
  | .add a b => do some (.add (← enclose? n a) (← enclose? n b))
  | .mul a b => do some (.mul n (← enclose? n a) (← enclose? n b))
  | .inv a => (enclose? n a).bind (Interval.inv? n)
  | .power a e => (enclose? n a).bind (Interval.power? n · e)

/-! ## 3. Heights -/

/-- The number of binary digits. -/
def digits (n : Nat) : Nat := if n = 0 then 0 else n.log2 + 1

/-- The binary digits that numerator and denominator of a rational number need. -/
def rationalHeight (q : Rat) : Nat := digits (max q.num.natAbs q.den)

/-- A bound on the binary logarithm of the height: for a root the size of its polynomial, for sums
    and products the bounds of the operands together. -/
def height : Algebraic → Nat
  | .rational q => rationalHeight q
  | .root p _ => digits p.length₁
  | .neg a => a.height
  | .add a b => a.height + b.height + 1
  | .mul a b => a.height + b.height
  | .inv a => a.height
  | .power a e => a.height * e.num.natAbs / e.den + 1

/-- The irrational numbers that an expression is built from: its roots and its powers with
    exponents that are no integers. -/
def generators : Algebraic → List Algebraic
  | .rational _ => []
  | .root p k => [.root p k]
  | .neg a => a.generators
  | .add a b => a.generators ++ b.generators
  | .mul a b => a.generators ++ b.generators
  | .inv a => a.generators
  | .power a e => if e.den = 1 then a.generators else .power a e :: a.generators

/-- The degree that a generator adds. -/
def generatorDegree : Algebraic → Nat
  | .root p _ => p.degree
  | .power _ e => e.den
  | _ => 1

/-- A bound on the degree of a field that holds all parts of an expression. -/
def fieldDegree (a : Algebraic) : Nat :=
  (a.generators.eraseDups.map generatorDegree).foldl (· * ·) 1

/-- A number of binary places in which a number other than zero shows a digit. -/
def gap (a : Algebraic) : Nat := a.fieldDegree * a.height + 1

/-! ## 4. Questions -/

/-- The answer of the first of the numbers of binary places `n`, `2 n`, `4 n`, … whose enclosure
    decides. -/
def decideAt {α : Type} (a : Algebraic) (decide? : Nat → Interval → Option α) : Nat → Nat → Option α
  | 0, _ => none
  | fuel + 1, n =>
    match (enclose? n a).bind (decide? n) with
    | some answer => some answer
    | none => decideAt a decide? fuel (2 * n)

/-- The number of times that the binary places are doubled at most; no machine holds numbers of
    that many places. -/
def doublings : Nat := 64

/-- The sign that an interval shows: it lies on one side of zero, or so near to zero that only
    zero is left. -/
def signWithin? (gap n : Nat) (i : Interval) : Option Int :=
  if 0 < i.lo then some 1
  else if i.hi < 0 then some (-1)
  else if gap ≤ n ∧ max (-i.lo) i.hi < twoTo (n - gap) then some 0
  else none

/-- The sign: one, zero or minus one. -/
def sign : Algebraic → Int
  | .rational q => q.num.sign
  | a => (decideAt a (signWithin? a.gap) doublings 64).getD 0

/-- The only rational number of height at most `2 ^ h` that an interval leaves room for, once it
    is narrow enough. -/
def candidateWithin? (h n : Nat) (i : Interval) : Option Rat :=
  if 2 * h < n ∧ i.hi - i.lo < twoTo (n - 2 * h - 1) then some (simplestBetween n i) else none

/-- The value of a rational number. -/
def rational? : Algebraic → Option Rat
  | .rational q => some q
  | .root _ _ | .power (.rational _) _ => none
  | a =>
    let h := a.height
    match decideAt a (candidateWithin? h) doublings (2 * h + 16) with
    | some q => if rationalHeight q ≤ h ∧ sign (minus a (.rational q)) = 0 then some q else none
    | none => none

/-- The number itself, as a rational number if it is one. -/
def settle (a : Algebraic) : Algebraic :=
  match a.rational? with
  | some q => .rational q
  | none => a

/-! ## 5. Powers -/

/-- The `d`-th root of a natural number, if it is natural: the root is found by bisection. -/
def naturalRoot? (d n : Nat) : Option Nat :=
  if n ≤ 1 then some n
  else if n.log2 < d then none
  else
    let r := (leastHolding (fun m => n ≤ Nat.pow m.toNat d) (n.log2 + 2) 0
      (twoTo (n.log2 / d + 1) : Nat)).toNat
    if Nat.pow r d = n then some r else none

/-- The `d`-th root of a positive rational number, if it is rational. -/
def rationalRootOf? (d : Nat) (q : Rat) : Option Rat := do
  let num ← naturalRoot? d q.num.natAbs
  let den ← naturalRoot? d q.den
  some (mkRat num den)

/-- A power of a positive rational number, or of one other than zero with an integer exponent. It is
    rational only if the base has a rational root of the degree of the exponent. -/
def raiseRat (q e : Rat) : Algebraic :=
  if e.den = 1 then .rational (q ^ e.num)
  else
    match rationalRootOf? e.den q with
    | some r => .rational (r ^ e.num)
    | none => .power (.rational q) e

/-- A power of a positive number, or of a number other than zero with an integer exponent. -/
def raise (a : Algebraic) (e : Rat) : Algebraic :=
  match a with
  | .rational q => raiseRat q e
  | .power (.rational q) e' => raiseRat q (e' * e)
  | .power b e' => if e'.den = 1 then .power a e else .power b (e' * e)
  | a => if e = 1 then a else .power a e

end Algebraic

end Credal
