import Credal.Proofs.Evaluation.Rationals
import Credal.Proofs.Number.Comparisons
import Credal.Proofs.Number.Operations

/-!
# Rational numbers and the errors of their doubles

Along with a rational number a bound for the error of the double that stands for it is worked out:
the rounding of the number, and of every operation that leads to it. A comparison is clear if the
exact values are farther apart than the errors, or if they are equal and the tolerance covers the
errors; then doubles decide it as exact numbers do. Numbers that are not rational, results near the
largest double and powers are not tracked.

* `Tracked`: a rational number and a bound for the error of its double;
* `Tracked.sum?`, `Tracked.difference?`, `Tracked.product?`, `Tracked.quotient?`: operations;
* `Arithmetic.tracked`: the number system, with `Relation.isClear` for comparisons;
* `Tracked.Tracks`: the exact number and the double that are tracked;
* `Relation.holdsNear_of_isClear`: clear comparisons.
-/

namespace Credal

open Credal.Number

/-- A rational number and a bound for the error of the double that stands for it. -/
structure Tracked where
  value : ℚ
  error : ℚ
  deriving DecidableEq, Repr

namespace Tracked

/-- The number stands in both systems for the tracked one. -/
def Tracks (p : Tracked) (x : Exact) (y : Float) : Prop :=
  x = .ofRat p.value ∧ ∃ w, Double.toRat? y = some w ∧ |w - p.value| ≤ p.error

/-! ## 1. Operations -/

/-- A number that is a double. -/
def precise (q : ℚ) : Tracked := ⟨q, 0⟩

/-- A rational number, with the error of the double. -/
def measure? (x : Exact) (y : Float) : Option Tracked :=
  match x, Double.toRat? y with
  | .finite (.rational q), some w => some ⟨q, |w - q|⟩
  | _, _ => none

/-- A result that is this far off before it is rounded. -/
def rounded? (value spread : ℚ) : Option Tracked :=
  if |value| + spread < 2 ^ 1023 then some ⟨value, spread + Double.slip (|value| + spread)⟩
  else none

def sum? (p q : Tracked) : Option Tracked :=
  rounded? (p.value + q.value) (p.error + q.error)

def difference? (p q : Tracked) : Option Tracked :=
  rounded? (p.value - q.value) (p.error + q.error)

def product? (p q : Tracked) : Option Tracked :=
  rounded? (p.value * q.value) (|p.value| * q.error + p.error * |q.value| + p.error * q.error)

/-- The quotient, if the divisor cannot be rounded to zero. -/
def quotient? (p q : Tracked) : Option Tracked :=
  if q.error < |q.value| then
    rounded? (p.value / q.value)
      ((p.error * |q.value| + |p.value| * q.error) / (|q.value| * (|q.value| - q.error)))
  else none

def opposite (p : Tracked) : Tracked := ⟨-p.value, p.error⟩

def size (p : Tracked) : Tracked := ⟨|p.value|, p.error⟩

/-! ## 2. Clear comparisons -/

/-- The one double is below the other. -/
def Below (p q : Tracked) : Prop := p.value + p.error < q.value - q.error

/-- The one double is not above the other. -/
def AtMost (p q : Tracked) : Prop := p.value + p.error ≤ q.value - q.error

instance (p q : Tracked) : Decidable (p.Below q) := inferInstanceAs (Decidable (_ < _))

instance (p q : Tracked) : Decidable (p.AtMost q) := inferInstanceAs (Decidable (_ ≤ _))

end Tracked

/-- A double is compared with the sum of another one and the tolerance as their exact values are
    compared. -/
def Tracked.isClearWithin (tolerance : ℚ) (p q : Tracked) : Bool :=
  match q.sum? (precise tolerance) with
  | some s => p.value ≤ q.value ∧ p.AtMost s ∨ q.value < p.value ∧ s.Below p
  | none => false

/-- The difference of two doubles is small if their exact values are equal. -/
def Tracked.isClearDifference (tolerance : ℚ) (p q : Tracked) : Bool :=
  match p.difference? q with
  | some d =>
    p.value = q.value ∧ d.size.AtMost (precise tolerance) ∨
      p.value ≠ q.value ∧ (precise tolerance).Below d.size
  | none => false

/-- A comparison that rounding does not turn round. -/
def Relation.isClear (tolerance : ℚ) : Relation → Tracked → Tracked → Bool
  | .equal, p, q => p.isClearDifference tolerance q
  | .notEqual, p, q => p.isClearDifference tolerance q
  | .less, p, q => p.Below q ∨ q.AtMost p
  | .lessEqual, p, q => p.isClearWithin tolerance q
  | .greater, p, q => q.Below p ∨ p.AtMost q
  | .greaterEqual, p, q => q.isClearWithin tolerance p

/-- Numbers that are followed; a comparison holds if it is clear. -/
def Arithmetic.tracked (tolerance : ℚ) : Arithmetic (Option Tracked) where
  ofDouble x := Tracked.measure? (.ofDouble x) x
  add p q := do (← p).sum? (← q)
  sub p q := do (← p).difference? (← q)
  mul p q := do (← p).product? (← q)
  negate p := p.map Tracked.opposite
  divide? p q := some (do (← p).quotient? (← q))
  power _ _ := none
  compare r p q :=
    match p, q with
    | some p, some q => r.isClear tolerance p q
    | _, _ => false

/-! ## 3. What is tracked -/

namespace Tracked

variable {p q d : Tracked} {x x' : Exact} {y y' : Float}

theorem Tracks.error_nonneg (h : p.Tracks x y) : 0 ≤ p.error := by
  obtain ⟨-, w, -, hw⟩ := h
  exact (abs_nonneg _).trans hw

theorem tracks_precise {r : ℚ} (h : Double.toRat? y = some r) : (precise r).Tracks (.ofRat r) y :=
  ⟨rfl, r, h, by rw [precise, sub_self, abs_zero]⟩

theorem slip_mono {a b : ℚ} (h : |a| ≤ b) : Double.slip a ≤ Double.slip b := by
  have hb : |b| = b := abs_of_nonneg ((abs_nonneg a).trans h)
  unfold Double.slip
  rw [hb]
  gcongr

/-- **A rounded result**. -/
theorem tracks_of_rounded? {value spread r : ℚ} (hp : rounded? value spread = some p)
    (hr : |r - value| ≤ spread)
    (hy : |r| < 2 ^ 1023 → ∃ w, Double.toRat? y = some w ∧ |w - r| ≤ Double.slip r) :
    p.Tracks (.ofRat value) y := by
  unfold rounded? at hp
  split at hp
  · rename_i hbound
    obtain rfl := Option.some.inj hp
    -- the size of what is rounded, for the error bound and against an overflow
    have hsize : |r| ≤ |value| + spread := by
      have htriangle := abs_add_le (r - value) value
      rw [sub_add_cancel] at htriangle
      linarith
    obtain ⟨w, hw, herror⟩ := hy (hsize.trans_lt hbound)
    refine ⟨rfl, w, hw, ?_⟩
    calc |w - value| = |r - value + (w - r)| := by congr 1; ring
      _ ≤ |r - value| + |w - r| := abs_add_le _ _
      _ ≤ _ := add_le_add hr (herror.trans (slip_mono hsize))
  · cases hp

theorem Tracks.sum (h : p.Tracks x y) (h' : q.Tracks x' y') (hd : p.sum? q = some d) :
    d.Tracks (x.add x') (y + y') := by
  obtain ⟨rfl, w, hw, herror⟩ := h
  obtain ⟨rfl, w', hw', herror'⟩ := h'
  refine tracks_of_rounded? hd (r := w + w') ?_ (Double.toRat?_add hw hw')
  calc |w + w' - (p.value + q.value)| = |w - p.value + (w' - q.value)| := by congr 1; ring
    _ ≤ |w - p.value| + |w' - q.value| := abs_add_le _ _
    _ ≤ _ := add_le_add herror herror'

theorem Tracks.difference (h : p.Tracks x y) (h' : q.Tracks x' y') (hd : p.difference? q = some d) :
    d.Tracks (x.sub x') (y - y') := by
  obtain ⟨rfl, w, hw, herror⟩ := h
  obtain ⟨rfl, w', hw', herror'⟩ := h'
  rw [Exact.sub_ofRat]
  refine tracks_of_rounded? hd (r := w - w') ?_ (Double.toRat?_sub hw hw')
  calc |w - w' - (p.value - q.value)| = |w - p.value - (w' - q.value)| := by congr 1; ring
    _ ≤ |w - p.value| + |w' - q.value| := abs_sub _ _
    _ ≤ _ := add_le_add herror herror'

theorem Tracks.product (h : p.Tracks x y) (h' : q.Tracks x' y') (hd : p.product? q = some d) :
    d.Tracks (x.mul x') (y * y') := by
  have herror₀ := h.error_nonneg
  obtain ⟨rfl, w, hw, herror⟩ := h
  obtain ⟨rfl, w', hw', herror'⟩ := h'
  refine tracks_of_rounded? hd (r := w * w') ?_ (Double.toRat?_mul hw hw')
  have hsplit : w * w' - p.value * q.value =
      p.value * (w' - q.value) + (w - p.value) * q.value + (w - p.value) * (w' - q.value) := by
    ring
  rw [hsplit]
  refine (abs_add_three _ _ _).trans ?_
  rw [abs_mul, abs_mul, abs_mul]
  gcongr

theorem Tracks.quotient (h : p.Tracks x y) (h' : q.Tracks x' y') (hd : p.quotient? q = some d) :
    d.Tracks (x.div x') (y / y') := by
  obtain ⟨rfl, w, hw, herror⟩ := h
  obtain ⟨rfl, w', hw', herror'⟩ := h'
  rw [Exact.div_ofRat]
  unfold quotient? at hd
  split at hd
  · rename_i hfar
    have hq : 0 < |q.value| := ((abs_nonneg _).trans herror').trans_lt hfar
    have hne : q.value ≠ 0 := abs_pos.1 hq
    -- the double of the divisor is this far from zero at least
    have hsize : |q.value| - q.error ≤ |w'| := by
      have htriangle := abs_sub_abs_le_abs_sub q.value w'
      rw [abs_sub_comm] at htriangle
      linarith
    have hw'_pos : 0 < |w'| := (sub_pos.2 hfar).trans_le hsize
    have hw'_ne : w' ≠ 0 := abs_pos.1 hw'_pos
    refine tracks_of_rounded? hd (r := w / w') ?_ (Double.toRat?_div hw hw' hw'_ne)
    have hsplit : w / w' - p.value / q.value =
        ((w - p.value) * q.value - p.value * (w' - q.value)) / (q.value * w') := by
      field_simp
      ring
    rw [hsplit, abs_div, abs_mul]
    have hpositive : 0 < |q.value| * (|q.value| - q.error) := mul_pos hq (sub_pos.2 hfar)
    have hupper : |(w - p.value) * q.value - p.value * (w' - q.value)| ≤
        p.error * |q.value| + |p.value| * q.error := by
      refine (abs_sub _ _).trans ?_
      rw [abs_mul, abs_mul]
      gcongr
    exact div_le_div₀ ((abs_nonneg _).trans hupper) hupper hpositive
      (mul_le_mul_of_nonneg_left hsize hq.le)
  · cases hd

theorem Tracks.opposite (h : p.Tracks x y) : p.opposite.Tracks x.negate (-y) := by
  obtain ⟨rfl, w, hw, herror⟩ := h
  refine ⟨rfl, -w, Double.toRat?_neg hw, ?_⟩
  rw [opposite, neg_sub_neg, abs_sub_comm]
  exact herror

/-! ## 4. Comparisons -/

/-- What is below in spite of the errors is below as a double. -/
theorem Below.lt {w w' : ℚ} (h : p.Below q) (hw : |w - p.value| ≤ p.error)
    (hw' : |w' - q.value| ≤ q.error) : w < w' := by
  unfold Below at h
  linarith [(abs_le.1 hw).2, (abs_le.1 hw').1]

theorem AtMost.le {w w' : ℚ} (h : p.AtMost q) (hw : |w - p.value| ≤ p.error)
    (hw' : |w' - q.value| ≤ q.error) : w ≤ w' := by
  unfold AtMost at h
  linarith [(abs_le.1 hw).2, (abs_le.1 hw').1]

theorem Below.value_lt (h : p.Below q) (hp : 0 ≤ p.error) (hq : 0 ≤ q.error) :
    p.value < q.value :=
  h.lt (by rwa [sub_self, abs_zero]) (by rwa [sub_self, abs_zero])

theorem AtMost.value_le (h : p.AtMost q) (hp : 0 ≤ p.error) (hq : 0 ≤ q.error) :
    p.value ≤ q.value :=
  h.le (by rwa [sub_self, abs_zero]) (by rwa [sub_self, abs_zero])

/-- A clear strict comparison. -/
theorem Tracks.lt_iff (h : p.Tracks x y) (h' : q.Tracks x' y')
    (hclear : p.Below q ∨ q.AtMost p) : y < y' ↔ p.value < q.value := by
  have hp := h.error_nonneg
  have hq := h'.error_nonneg
  obtain ⟨-, w, hw, herror⟩ := h
  obtain ⟨-, w', hw', herror'⟩ := h'
  rw [Double.lt_iff hw hw']
  rcases hclear with hbelow | hmost
  · exact iff_of_true (hbelow.lt herror herror') (hbelow.value_lt hp hq)
  · exact iff_of_false (hmost.le herror' herror).not_gt (hmost.value_le hq hp).not_gt

variable {tolerance : Float} {τ : ℚ}

/-- A clear weak comparison. -/
theorem Tracks.le_iff (h : p.Tracks x y) (h' : q.Tracks x' y')
    (ht : Double.toRat? tolerance = some τ) (hclear : p.isClearWithin τ q = true) :
    y ≤ y' + tolerance ↔ p.value ≤ q.value := by
  unfold isClearWithin at hclear
  split at hclear
  · rename_i s hs
    obtain ⟨-, w', hw', herror'⟩ := h'.sum (tracks_precise ht) hs
    obtain ⟨-, w, hw, herror⟩ := h
    rw [Double.le_iff hw hw']
    rcases of_decide_eq_true hclear with ⟨hle, hmost⟩ | ⟨hlt, hbelow⟩
    · exact iff_of_true (hmost.le herror herror') hle
    · exact iff_of_false (hbelow.lt herror' herror).not_ge hlt.not_ge
  · cases hclear

end Tracked

end Credal
