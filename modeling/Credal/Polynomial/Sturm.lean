import Credal.Polynomial.Basic

/-!
# Counting real roots

The Sturm chain of a squarefree polynomial starts with it and its derivative and goes on with the
negated remainders. Between two points the number of sign changes along the chain drops by the
number of roots that lie above the first and not above the second. Positive factors do not matter,
so every member is kept primitive.

* `Poly.chain`: the Sturm chain;
* `variations`: the number of sign changes of a list of signs;
* `Poly.rootCount`: the number of distinct real roots.
-/

namespace Credal

/-- The number of places where the sign changes, zeros left out. -/
def variations (signs : List Int) : Nat :=
  let signs := signs.filter (· ≠ 0)
  ((signs.zip signs.tail).filter fun s => s.1 ≠ s.2).length

namespace Poly

/-- The chain after two members. Each step shortens the second one, so its length is fuel
    enough. -/
def chainWithin : Nat → Poly → Poly → List Poly
  | 0, _, _ => []
  | fuel + 1, p, q =>
    match q with
    | [] => []
    | q => q :: chainWithin fuel q ((remainder p q).trim.primitive.map (-·))

/-- The Sturm chain of a squarefree polynomial. -/
def chain (p : Poly) : List Poly := p :: chainWithin p.length p p.derivative.primitive

/-- The sign of a polynomial far to the right, or far to the left. -/
def signAtEnd (left : Bool) (p : Poly) : Int :=
  if left && p.degree % 2 = 1 then -p.leading.sign else p.leading.sign

/-- The number of sign changes of a chain far to the right or left. -/
def endVariations (left : Bool) (chain : List Poly) : Nat :=
  variations (chain.map (signAtEnd left))

/-- The number of roots of the first polynomial of a chain that are at most `num / den`, for a
    positive denominator. -/
def chainRootsUpTo (chain : List Poly) (num den : Int) : Nat :=
  endVariations true chain - variations (chain.map (·.signAt num den))

/-- The number of roots of the first polynomial of a chain. -/
def chainRootCount (chain : List Poly) : Nat :=
  endVariations true chain - endVariations false chain

/-- The number of distinct real roots of a polynomial other than zero. -/
def rootCount (p : Poly) : Nat := chainRootCount p.squarefree.chain

end Poly

end Credal
