import Credal.Polynomial.Basic
import Mathlib.Data.List.GetD
import Mathlib.Tactic.Ring

/-!
# Coefficients and values

The coefficients of a polynomial are listed from the highest degree down, so the one of a degree is
counted from the end of the list. The value at a point is found by reading the list from the front.

* `Poly.coefficient`: the coefficient of a degree, zero where the list has none;
* `Poly.valueIn`: the value at a point of a ring;
* `coefficient_cons`, `valueIn_cons`: a coefficient in front of the others;
* `coefficient_zeros_append`, `valueIn_zeros_append`: zeros in front change nothing;
* `valueAt_mul_den`: the value at a quotient.
-/

namespace Credal.Poly

/-- The coefficient of a degree. -/
def coefficient (p : Poly) (degree : Nat) : Int := p.reverse.getD degree 0

/-- The value at a point: each coefficient is added to the value so far times the point. -/
def valueIn {K : Type*} [CommRing K] (p : Poly) (x : K) : K :=
  p.foldl (fun (value : K) (c : Int) => value * x + c) 0

/-! ## 1. Coefficients -/

theorem coefficient_of_length_le {p : Poly} {k : Nat} (h : p.length ≤ k) : p.coefficient k = 0 :=
  List.getD_eq_default _ _ (by rw [List.length_reverse]; exact h)

/-- **The first coefficient is that of the highest degree.** -/
theorem coefficient_cons (c : Int) (p : Poly) (k : Nat) :
    coefficient (c :: p) k = if k = p.length then c else p.coefficient k := by
  rw [coefficient, List.reverse_cons]
  rcases lt_trichotomy k p.length with h | h | h
  · have hk : k < p.reverse.length := by rw [List.length_reverse]; exact h
    rw [if_neg h.ne, List.getD_append _ _ _ _ hk, coefficient]
  · have hk : p.reverse.length ≤ k := by rw [List.length_reverse]; exact h.ge
    have hlast : k - p.reverse.length = 0 := by rw [List.length_reverse, h, Nat.sub_self]
    rw [if_pos h, List.getD_append_right _ _ _ _ hk, hlast]
    rfl
  · have hk : (p.reverse ++ [c]).length ≤ k := by
      rw [List.length_append, List.length_reverse]
      exact h
    rw [if_neg h.ne', List.getD_eq_default _ _ hk, coefficient_of_length_le h.le]

theorem coefficient_zeros_append (n : Nat) (p : Poly) (k : Nat) :
    coefficient (List.replicate n 0 ++ p) k = p.coefficient k := by
  induction n with
  | zero => rfl
  | succ n ih =>
    rw [List.replicate_succ, List.cons_append, coefficient_cons, ih]
    split
    · rename_i h
      rw [coefficient_of_length_le]
      rw [h, List.length_append]
      exact Nat.le_add_left _ _
    · rfl

/-! ## 2. Values -/

section Values

variable {K : Type*} [CommRing K] (x : K)

/-- What has been read counts with one factor for each coefficient that is still to come. -/
theorem foldl_value (p : Poly) (value : K) :
    p.foldl (fun (value : K) (c : Int) => value * x + c) value =
      value * x ^ p.length + p.valueIn x := by
  induction p generalizing value with
  | nil =>
    rw [List.foldl_nil, List.length_nil, pow_zero, mul_one, valueIn, List.foldl_nil, add_zero]
  | cons c p ih =>
    have hfirst : valueIn (c :: p) x = (0 * x + c) * x ^ p.length + valueIn p x := ih _
    rw [List.foldl_cons, ih, hfirst, List.length_cons]
    ring

theorem valueIn_cons (c : Int) (p : Poly) :
    valueIn (c :: p) x = c * x ^ p.length + p.valueIn x := by
  rw [valueIn, List.foldl_cons, foldl_value, zero_mul, zero_add]

theorem valueIn_zeros_append (n : Nat) (p : Poly) :
    valueIn (List.replicate n 0 ++ p) x = p.valueIn x := by
  induction n with
  | zero => rfl
  | succ n ih =>
    rw [List.replicate_succ, List.cons_append, valueIn_cons, ih, Int.cast_zero, zero_mul, zero_add]

/-- **The value at a quotient, cleared of denominators**, is the value at the quotient times a power
    of the denominator. -/
theorem valueAt_mul_den (p : Poly) (num den : Int) (hx : x * den = num) :
    (p.valueAt num den : K) * den = den ^ p.length * p.valueIn x := by
  -- What has been read is multiplied by the numerator once for each coefficient to come.
  have hfold : ∀ value power : Int,
      ((p.foldl (fun (acc : Int × Int) c => (acc.1 * num + c * acc.2, acc.2 * den))
        (value, power)).1 : K) * den =
      value * den * num ^ p.length + power * den ^ p.length * p.valueIn x := by
    induction p with
    | nil =>
      intro value power
      have hnil : valueIn [] x = 0 := rfl
      rw [List.foldl_nil, List.length_nil, pow_zero, pow_zero, hnil]
      ring
    | cons c p ih =>
      intro value power
      rw [List.foldl_cons, ih, valueIn_cons, List.length_cons]
      push_cast
      rw [← hx]
      ring
  rw [valueAt, hfold, Int.cast_zero, Int.cast_one]
  ring

end Values

end Credal.Poly
