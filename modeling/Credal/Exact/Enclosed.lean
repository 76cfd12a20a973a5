import Credal.Exact.Number

/-!
# Enclosed values

A computer algebra system that works with enclosures: it narrows an interval around a value until
the answer shows. It decides nothing else, but that the difference of equal expressions is zero.

* `Exact.enclose?`: an interval around a value;
* `Exact.shownSign?`: the sign that an enclosure shows;
* `Algebraic.roundedBy?`: what a number is rounded to;
* `AlgebraSystem.enclosing`: the system.
-/

namespace Credal

open Credal.Number

/-- An interval of `n` binary places around a value. A power lies between those with the ends of its
    exponent. -/
def Exact.enclose? (n : Nat) : Exact → Option Interval
  | .finite a => a.enclose? n
  | .infinite _ | .undefined => none
  | .opposite x => (enclose? n x).map .neg
  | .sum x y => do some (.add (← enclose? n x) (← enclose? n y))
  | .product x y => do some (.mul n (← enclose? n x) (← enclose? n y))
  | .reciprocal x => (enclose? n x).bind (Interval.inv? n)
  | .raised base exponent => do
    let b ← enclose? n base
    let e ← enclose? n exponent
    if 0 < b.lo then
      some (.hull (← b.power? n (dyadicRat e.lo (-n))) (← b.power? n (dyadicRat e.hi (-n))))
    else none

/-- The sign that an enclosure shows, of at most the given numbers of binary places. -/
def Exact.shownSign? (places : List Nat) (x : Exact) : Option Int :=
  places.findSome? fun n => (x.enclose? n).bind fun i =>
    if 0 < i.lo then some 1 else if i.hi < 0 then some (-1) else none

/-- What a number is rounded to: the value that both ends of an enclosure are rounded to. -/
def Algebraic.roundedBy? {β : Type} [DecidableEq β] (round : Rat → β) : Algebraic → Option β
  | .rational q => some (round q)
  | a => a.decideAt (fun n i =>
      let x := round (dyadicRat i.lo (-n))
      if x = round (dyadicRat i.hi (-n)) then some x else none) doublings 128

namespace AlgebraSystem

/-- The number with its leading 103 binary digits, which are thirty decimal digits. -/
def approximate? : Exact → Option Rat
  | .finite a => a.settle.roundedBy? (roundRat 103)
  | _ => none

/-- The numbers of binary places that are tried before a sign is given up. -/
def triedPlaces : List Nat := [64, 128, 256, 512]

/-- Whether a value is a difference of equal expressions. -/
def isOwnDifference : Exact → Bool
  | .sum x (.opposite y) => x = y
  | _ => false

/-- The system that works with enclosures. -/
def enclosing : AlgebraSystem where
  isZero? x := if isOwnDifference x then some true else none
  isPositive? x := (x.shownSign? triedPlaces).map (· = 1)
  isNegative? x := (x.shownSign? triedPlaces).map (· = -1)
  approximation? := approximate?

end AlgebraSystem

end Credal
