import Credal.Number.Power
import Credal.Polynomial.Sturm

/-!
# Locating a real root

The `k`-th real root of a squarefree polynomial is found by bisection on the number of roots up to
a point, and then, once it is alone in an interval, by the sign of the polynomial at points that
linear interpolation suggests.

* `leastHolding`: bisection over the integers;
* `Poly.rationalRoot?`: the `k`-th root if it is rational: its product with the leading coefficient
  is then an integer;
* `Cell`: an interval between neighbouring multiples of a power of one half;
* `Poly.cell`: the cell of the `k`-th root at a given depth, for a root that is not rational.
-/

namespace Credal

open Credal.Number

/-- The least integer of `lo + 1 … hi` that has a property which, once had, is kept; `hi` has it
    and `lo` has not. -/
def leastHolding (holds : Int → Bool) : Nat → Int → Int → Int
  | 0, _, hi => hi
  | fuel + 1, lo, hi =>
    if hi - lo ≤ 1 then hi
    else
      let mid := (lo + hi) / 2
      if holds mid then leastHolding holds fuel lo mid else leastHolding holds fuel mid hi

/-- The interval from `(high - 1) / 2 ^ depth` to `high / 2 ^ depth`. -/
structure Cell where
  high : Int
  depth : Nat
  deriving DecidableEq, Repr

namespace Poly

/-- A bound on the size of the roots: one more than the largest coefficient. -/
def rootBound (p : Poly) : Nat := p.foldl (fun m c => max m c.natAbs) 0 + 1

/-- The sum of the sizes of the coefficients. -/
def length₁ (p : Poly) : Nat := p.foldl (fun s c => s + c.natAbs) 0

/-- The least `m` such that at least `k` roots are at most `m / den`. -/
def leastAbove (p : Poly) (chain : List Poly) (k : Nat) (den : Nat) : Int :=
  let bound : Int := p.rootBound * den
  leastHolding (fun m => k ≤ chainRootsUpTo chain m den) (2 * bound.natAbs).log2.succ (-bound) bound

/-- The `k`-th root of a squarefree polynomial, if it is rational. -/
def rationalRoot? (p : Poly) (chain : List Poly) (k : Nat) : Option Rat :=
  let den := p.leading.natAbs
  let m := p.leastAbove chain k den
  if chainRootsUpTo chain m den = k ∧ p.signAt m den = 0 then some (mkRat m den) else none

/-- The half of a cell that holds the `k`-th root. -/
def halve (chain : List Poly) (k : Nat) (c : Cell) : Cell :=
  let mid := 2 * c.high - 1
  if k ≤ chainRootsUpTo chain mid (twoTo (c.depth + 1) : Nat) then ⟨mid, c.depth + 1⟩
  else ⟨mid + 1, c.depth + 1⟩

/-- Whether the `k`-th root is the only one in a cell and none is at its ends. -/
def isAlone (p : Poly) (chain : List Poly) (k : Nat) (c : Cell) : Bool :=
  let den : Nat := twoTo c.depth
  chainRootsUpTo chain c.high den = k && chainRootsUpTo chain (c.high - 1) den + 1 = k
    && p.signAt c.high den ≠ 0 && p.signAt (c.high - 1) den ≠ 0

/-- A cell in which the `k`-th root is alone. Roots are farther apart than a power of one half
    that the fuel exceeds. -/
def isolate (p : Poly) (chain : List Poly) (k : Nat) : Nat → Cell → Cell
  | 0, c => c
  | fuel + 1, c =>
    if isAlone p chain k c then c else isolate p chain k fuel (halve chain k c)

/-- The half of a cell at whose ends the signs of the polynomial differ. -/
def halveBySign (p : Poly) (c : Cell) : Cell :=
  let den : Nat := twoTo (c.depth + 1)
  let mid := 2 * c.high - 1
  if p.signAt mid den = p.signAt (2 * c.high) den then ⟨mid, c.depth + 1⟩
  else ⟨mid + 1, c.depth + 1⟩

/-- Where the chord over a cell meets zero, as a multiple of `1 / 2 ^ (depth + gain)`. -/
def chordGuess (p : Poly) (c : Cell) (gain : Nat) : Int :=
  let den : Nat := twoTo c.depth
  let a := p.valueAt (c.high - 1) den
  let b := p.valueAt c.high den
  (c.high - 1) * twoTo gain + (a * twoTo gain) / (a - b)

/-- The cell next to the guess at whose ends the signs differ, if there is one. -/
def guessedCell? (p : Poly) (c : Cell) (gain : Nat) : Option Cell :=
  let depth := c.depth + gain
  let den : Nat := twoTo depth
  let g := p.chordGuess c gain
  let right := p.signAt c.high (twoTo c.depth : Nat)
  let inside := fun (m : Int) =>
    (c.high - 1) * twoTo gain < m && m ≤ c.high * twoTo gain
      && p.signAt m den = right && p.signAt (m - 1) den = -right
  if inside (g + 1) then some ⟨g + 1, depth⟩
  else if inside g then some ⟨g, depth⟩
  else if inside (g + 2) then some ⟨g + 2, depth⟩
  else none

/-- A cell of at least the given depth. The gain of a guess that was right is doubled, and after
    one that was wrong the cell is halved; every step makes the cell deeper. -/
def refine (p : Poly) (target : Nat) : Nat → Nat → Cell → Cell
  | 0, _, c => c
  | fuel + 1, gain, c =>
    if target ≤ c.depth then c
    else
      let gain := min gain (target - c.depth)
      match guessedCell? p c gain with
      | some c => refine p target fuel (2 * gain) c
      | none => refine p target fuel (gain / 2 + 1) (halveBySign p c)

/-- The cell of at least the given depth around the `k`-th root of a squarefree polynomial, which
    is not rational. -/
def cell (p : Poly) (k depth : Nat) : Cell :=
  let chain := p.chain
  let start : Cell := ⟨p.leastAbove chain k 1, 0⟩
  let c := isolate p chain k (4 * (p.length * (p.length + p.length₁.log2 + 1)) + 8) start
  refine p depth (depth + 1) 1 c

end Poly

end Credal
