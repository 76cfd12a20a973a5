import Credal.Number.Integer
import Credal.Polynomial.Basic
import Credal.SExpr.Basic

/-!
# Values in a solver's model

What a solver says about a real constant: a numeral, a negated value, a quotient, a real root of a
polynomial, or a term that says nothing to us. Values are written the way the solver writes them,
unless an integer in them is too long to be written.

* `ModelValue`: the values;
* `numeralTerm?`: a rational number as a decimal, or as a quotient if it has no finite decimal;
* `ModelValue.term?`: a value as a term;
* `polynomialTerm?`: a polynomial as a term, the way the solver shortens it.
-/

namespace Credal

open Credal.Number

/-- The value of a real constant in a model. -/
inductive ModelValue where
  | literal (q : Rat)
  | negative (v : ModelValue)
  | quotient (numerator denominator : ModelValue)
  /-- The root number `index`, counted from one, of the polynomial in ascending order. -/
  | root (index : Int) (coefficients : Poly)
  | unknown (s : SExpr)
  deriving DecidableEq, Repr

/-- The degree that a list of coefficients has room for, minus one for the empty list. -/
def Poly.nominalDegree (p : Poly) : Int := (p.length : Int) - 1

/-! ## 1. Numerals -/

/-- `n` without a factor two and without a factor five, if it has them. -/
def stripTen (n : Nat) : Nat :=
  let n := if n % 2 = 0 then n / 2 else n
  if n % 5 = 0 then n / 5 else n

theorem stripTen_lt {n : Nat} (h : 0 < n) (hn : n % 2 = 0 ∨ n % 5 = 0) : stripTen n < n := by
  unfold stripTen
  simp only
  split <;> split <;> omega

/-- How often a denominator has to be multiplied by ten until only factors other than two and five
    are left, and what is left. -/
def decimalPlaces (n : Nat) : Nat × Nat :=
  if _h : 0 < n ∧ (n % 2 = 0 ∨ n % 5 = 0) then
    let (places, rest) := decimalPlaces (stripTen n)
    (places + 1, rest)
  else (0, n)
  termination_by n
  decreasing_by exact stripTen_lt _h.1 _h.2

/-- The digits with a point before the last `places` of them and at least one digit before the
    point. -/
def pointed (digits : List Char) (places : Nat) : List Char :=
  let padded := List.replicate (places + 1 - digits.length) '0' ++ digits
  padded.take (padded.length - places) ++ '.' :: padded.drop (padded.length - places)

/-- The digits of a natural number that is not too long. -/
def naturalText? (n : Nat) : Option (List Char) := if isWritable n then some (natText n) else none

/-- A whole number as an atom. -/
def wholeTerm? (sign : List Char) (n : Nat) : Option SExpr := do
  some (.atom (String.ofList (sign ++ (← naturalText? n) ++ ['.', '0'])))

/-- A rational number as a term. -/
def numeralTerm? (q : Rat) : Option SExpr := do
  let sign := if q.num < 0 then ['-'] else []
  let num := q.num.natAbs
  if q.den = 1 then wholeTerm? sign num
  else
    let (places, rest) := decimalPlaces q.den
    if rest ≠ 1 then some (.app "/" [← wholeTerm? sign num, ← wholeTerm? [] q.den])
    else
      let digits ← naturalText? (num * Nat.pow 10 places / q.den)
      some (.atom (String.ofList (sign ++ pointed digits places)))

/-! ## 2. Terms -/

/-- An integer as a term: a numeral, or a negated one. -/
def integerTerm? (i : Int) : Option SExpr := do
  if i < 0 then some (.app "-" [.atom (← writeInteger? (-i))])
  else some (.atom (← writeInteger? i))

/-- A power of the variable. -/
def powerTerm (e : Nat) : SExpr :=
  if e = 1 then .atom "x" else .app "^" [.atom "x", .atom (intText e)]

/-- The monomial of a coefficient and a positive degree. -/
def productTerm? (c : Int) (e : Nat) : Option SExpr := do
  some (.app "*" [← integerTerm? c, powerTerm e])

/-- The monomials of a polynomial: the constant always, the others if they are not zero. -/
def monomialTerms? : Poly → Option (List SExpr)
  | [] => some []
  | [c] => do some [← integerTerm? c]
  | c :: d :: p => do
    let rest ← monomialTerms? (d :: p)
    if c = 0 then some rest else some ((← productTerm? c (p.length + 1)) :: rest)

/-- The value as a term. -/
def ModelValue.term? : ModelValue → Option SExpr
  | .literal q => numeralTerm? q
  | .negative v => do some (.app "-" [← v.term?])
  | .quotient a b => do some (.app "/" [← a.term?, ← b.term?])
  | .root index p => do
    let terms ← monomialTerms? p
    some (.app "root-obj" [.app "+" terms, .atom (← writeInteger? index)])
  | .unknown s => some s

/-- The text of a value. -/
def ModelValue.text? (v : ModelValue) : Option String := v.term?.map (·.text)

/-! ## 3. Shortened polynomials -/

/-- The monomial of a coefficient other than zero, a factor one or minus one left out; minus one
    is kept before the first power. -/
def shortTerm? (c : Int) (e : Nat) : Option SExpr :=
  if c = 1 then some (powerTerm e)
  else if c = -1 ∧ 2 ≤ e then some (.app "-" [powerTerm e])
  else productTerm? c e

/-- The shortened monomials of a polynomial. -/
def shortTerms? : Poly → Option (List SExpr)
  | [] => some []
  | [c] => do some [← integerTerm? c]
  | c :: d :: p => do
    let rest ← shortTerms? (d :: p)
    if c = 0 then some rest else some ((← shortTerm? c (p.length + 1)) :: rest)

/-- A polynomial as a term; a linear one keeps its factor, a constant is no sum. -/
def polynomialTerm? : Poly → Option SExpr
  | [] => some (.atom "0")
  | [c] => integerTerm? c
  | [a, b] => do some (.app "+" [.app "*" [← integerTerm? a, .atom "x"], ← integerTerm? b])
  | p => do some (.app "+" (← shortTerms? p))

end Credal
