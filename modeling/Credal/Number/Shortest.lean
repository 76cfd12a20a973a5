import Credal.Number.Double

/-!
# Shortest decimals

The shortest decimal that reads back as a given double. The doubles nearest to a decimal are those
whose interval of nearest reals holds it; the ends belong to the interval exactly when the
significand is even. Of the grids with 1, 2, … 17 digits the first that has a point in the interval
is taken, and on it the point nearest to the exact value. If a point of a grid lies in the
interval, so does one of the value's two neighbours on that grid, so only these are tried.

* `Interval`, `interval`: the reals that read back, as quotients over one denominator;
* `onGrid?`: the best point with a given number of digits;
* `Shortest.ofParts`: the digits and the exponent of the answer;
* `Decimal`, `Decimal.toRat`: a decimal and its value;
* `Double.shortest?`: the value of the answer with its sign.
-/

namespace Credal.Number

/-- The decimal `digits · 10 ^ exponent`. -/
structure Decimal where
  digits : Nat
  exponent : Int
  deriving DecidableEq, Repr

/-- The value of a decimal. -/
def Decimal.toRat (d : Decimal) : Rat :=
  let (n, m) := scaleQuotient d.digits 1 d.exponent
  mkRat n m

/-- The decimal without trailing zeros. -/
def Decimal.strip (d : Decimal) : Decimal :=
  go d.digits d
where
  /-- At most `fuel` zeros are taken off; there are fewer zeros than the value of the digits. -/
  go : Nat → Decimal → Decimal
    | 0, d => d
    | fuel + 1, d =>
      if d.digits ≠ 0 ∧ d.digits % 10 = 0 then go fuel ⟨d.digits / 10, d.exponent + 1⟩ else d

namespace Shortest

/-- The reals nearest to a double: `low / den` to `high / den` around `value / den`, the ends
    included if `closed`. -/
structure Interval where
  low : Nat
  value : Nat
  high : Nat
  den : Nat
  closed : Bool
  deriving DecidableEq, Repr

/-- The interval of a positive finite double. Its ends lie half way to the neighbours; below a
    power of two the neighbour is twice as near. -/
def interval (p : Double.Parts) : Interval :=
  let below := if p.significand = twoTo 52 ∧ -1074 < p.exponent then 1 else 2
  let (unit, den) := shiftQuotient 1 1 (p.exponent - 2)
  { low := (4 * p.significand - below) * unit
    value := 4 * p.significand * unit
    high := (4 * p.significand + 2) * unit
    den := den
    closed := p.significand % 2 = 0 }

/-- Whether `n / d` lies in the interval. -/
def Interval.holds (i : Interval) (n d : Nat) : Bool :=
  let a := n * i.den
  if i.closed then i.low * d ≤ a && a ≤ i.high * d else i.low * d < a && a < i.high * d

/-- The best point of the interval among the multiples of `10 ^ grid`: the value's neighbour below
    or above, the nearer one if both read back, and the even one of two equally near. -/
def onGrid? (i : Interval) (grid : Int) : Option Decimal :=
  let (n, d) := scaleQuotient i.value i.den (-grid)
  let lower := n / d
  let inside := fun (k : Nat) =>
    let (a, b) := scaleQuotient k 1 grid
    i.holds a b
  match inside lower, inside (lower + 1) with
  | true, true => some ⟨halfEven n d, grid⟩
  | true, false => some ⟨lower, grid⟩
  | false, true => some ⟨lower + 1, grid⟩
  | false, false => none

/-- The shortest decimal that reads back as the positive finite double. Seventeen digits always
    suffice. -/
def ofParts (p : Double.Parts) : Decimal :=
  let i := interval p
  let lead := decimalExponent i.value i.den
  let candidates := (List.range 17).filterMap fun (k : Nat) => onGrid? i (lead - k)
  (candidates.head?.getD ⟨i.value / i.den, 0⟩).strip

end Shortest

/-- The value of the shortest decimal that reads back as a finite double. -/
def Double.shortest? (x : Float) : Option Rat :=
  (Double.parts? x).map fun p =>
    let q := if p.significand = 0 then 0 else (Shortest.ofParts p).toRat
    if p.negative then -q else q

end Credal.Number
