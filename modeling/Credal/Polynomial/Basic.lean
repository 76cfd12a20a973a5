/-!
# Integer polynomials

A polynomial in one variable is the list of its integer coefficients, the one of the highest degree
first. A leading zero changes nothing but the length of the list.

* `Poly.valueAt`: the value at a quotient, cleared of denominators;
* `Poly.derivative`, `Poly.primitive`: the derivative, and the polynomial divided by the greatest
  common divisor of its coefficients;
* `Poly.remainder`: a positive multiple of the remainder of a division;
* `Poly.gcd`, `Poly.squarefree`: a common divisor of largest degree, and a polynomial with the same
  roots, each once.
-/

namespace Credal

/-- The coefficients of a polynomial, the highest degree first. -/
abbrev Poly := List Int

namespace Poly

/-- The polynomial without leading zeros. -/
def trim (p : Poly) : Poly := p.dropWhile (· = 0)

/-- The degree, that of a constant being zero. -/
def degree (p : Poly) : Nat := p.length - 1

/-- The first coefficient. -/
def leading (p : Poly) : Int := p.headD 0

/-- `den ^ degree` times the value at `num / den`. Each step multiplies what is there by the
    numerator and adds a coefficient times one more power of the denominator. -/
def valueAt (p : Poly) (num den : Int) : Int :=
  (p.foldl (fun (acc : Int × Int) c => (acc.1 * num + c * acc.2, acc.2 * den)) (0, 1)).1

/-- The sign of the value at `num / den`, for a positive denominator. -/
def signAt (p : Poly) (num den : Int) : Int := (p.valueAt num den).sign

/-- The derivative. -/
def derivative : Poly → Poly
  | [] => []
  | [_] => []
  | c :: p => c * (p.length : Int) :: derivative p

/-- The greatest common divisor of the coefficients. -/
def content (p : Poly) : Nat := p.foldl (fun g c => Nat.gcd g c.natAbs) 0

/-- The polynomial divided by its content. -/
def primitive (p : Poly) : Poly :=
  let g := p.content
  if g ≤ 1 then p else p.map (· / (g : Int))

/-- The difference `a · p - b · q`, the coefficients of `q` being read from the front and followed
    by zeros. -/
def combine (a : Int) (p : Poly) (b : Int) (q : Poly) : Poly :=
  match p, q with
  | [], _ => []
  | c :: p, [] => a * c :: combine a p b []
  | c :: p, d :: q => (a * c - b * d) :: combine a p b q

theorem length_combine (a : Int) (p : Poly) (b : Int) (q : Poly) :
    (combine a p b q).length = p.length := by
  fun_induction combine a p b q <;> simp_all

/-- The remainder of `p` divided by `q`, times a positive number: each step takes off the leading
    coefficient of `p`, multiplied by the size of that of `q` so that all stays integral. -/
def remainder (p q : Poly) : Poly :=
  match p with
  | [] => []
  | c :: rest =>
    if (c :: rest).length < q.length then c :: rest
    else if c = 0 then remainder rest q
    else remainder (combine q.leading.natAbs rest (q.leading.sign * c) q.tail) q
  termination_by p.length
  decreasing_by all_goals simp [length_combine]

/-- A common divisor of largest degree, by division with remainder. Each step shortens the second
    polynomial, so its length is fuel enough. -/
def gcdWithin : Nat → Poly → Poly → Poly
  | 0, p, _ => p
  | fuel + 1, p, q =>
    match q with
    | [] => p
    | q => gcdWithin fuel q (remainder p q).trim.primitive

/-- A common divisor of largest degree. -/
def gcd (p q : Poly) : Poly := gcdWithin (q.length + 1) p.trim.primitive q.trim.primitive

/-- The quotient of `p` by a polynomial that divides it with integer coefficients. -/
def divideExact (p q : Poly) : Poly :=
  match p with
  | [] => []
  | c :: rest =>
    if (c :: rest).length < q.length then []
    else
      let d := c / q.leading
      d :: divideExact (combine 1 rest d q.tail) q
  termination_by p.length
  decreasing_by simp [length_combine]

/-- The polynomial or its negative, with a leading coefficient that is not negative. -/
def positive (p : Poly) : Poly := if p.leading < 0 then p.map (-·) else p

/-- The polynomial with the same roots, each once. -/
def squarefree (p : Poly) : Poly :=
  let p := p.trim.primitive
  let g := gcd p p.derivative
  positive (if g.degree = 0 then p else (divideExact p g).primitive)

end Poly

end Credal
