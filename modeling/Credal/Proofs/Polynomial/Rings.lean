import Credal.Proofs.Polynomial.Coefficients
import Mathlib.Algebra.Polynomial.Derivative
import Mathlib.Algebra.Polynomial.Eval.Degree
import Mathlib.Data.List.TakeWhile

/-!
# Polynomials over a ring

The list of integer coefficients is read as a polynomial over a ring. Each operation on lists is one
on polynomials then, and only the length of the list depends on leading zeros.

* `Poly.poly`: the polynomial over a ring;
* `eval_poly`, `map_poly`, `coeff_poly`: its values, its images and its coefficients;
* `poly_trim`, `poly_derivative`, `poly_combine`, `poly_map_neg`, `poly_map_mul`: the operations;
* `Poly.IsTrimmed`: lists without leading zeros;
* `IsTrimmed.natDegree_poly`, `IsTrimmed.leadingCoeff_poly`: degree and leading coefficient.
-/

namespace Credal.Poly

open Polynomial

/-- The polynomial over a ring with the given coefficients. -/
noncomputable def poly (R : Type*) [CommRing R] : Poly → R[X]
  | [] => 0
  | c :: p => C (c : R) * X ^ p.length + poly R p

section Ring

variable {R : Type*} [CommRing R]

@[simp] theorem poly_nil : poly R [] = 0 := rfl

@[simp] theorem poly_cons (c : Int) (p : Poly) :
    poly R (c :: p) = C (c : R) * X ^ p.length + p.poly R := rfl

/-! ## 1. Values and coefficients -/

theorem eval_poly (p : Poly) (x : R) : (p.poly R).eval x = p.valueIn x := by
  induction p with
  | nil => simp [valueIn]
  | cons c p ih => simp [valueIn_cons, ih]

theorem map_poly {S : Type*} [CommRing S] (f : R →+* S) (p : Poly) :
    (p.poly R).map f = p.poly S := by
  induction p with
  | nil => simp
  | cons c p ih => simp [ih]

theorem degree_poly_lt (p : Poly) : (p.poly R).degree < p.length := by
  induction p with
  | nil => simp
  | cons c p ih =>
    rw [poly_cons, List.length_cons]
    refine lt_of_le_of_lt (degree_add_le _ _) (max_lt ?_ ?_)
    · refine lt_of_le_of_lt (degree_C_mul_X_pow_le _ _) ?_
      exact_mod_cast Nat.lt_succ_self _
    · refine ih.trans ?_
      exact_mod_cast Nat.lt_succ_self _

theorem natDegree_poly_le (p : Poly) : (p.poly R).natDegree ≤ p.degree := by
  rcases p with _ | ⟨c, p⟩
  · simp
  · have hle : (poly R (c :: p)).degree ≤ p.length := Order.le_of_lt_succ (degree_poly_lt (c :: p))
    exact natDegree_le_of_degree_le hle

theorem coeff_poly (p : Poly) (k : Nat) : (p.poly R).coeff k = (p.coefficient k : R) := by
  induction p with
  | nil => simp [coefficient]
  | cons c p ih =>
    rw [poly_cons, coeff_add, coeff_C_mul_X_pow, ih, coefficient_cons]
    split
    · rename_i hk
      rw [coefficient_of_length_le hk.ge, Int.cast_zero, add_zero]
    · rw [zero_add]

/-- The first coefficient of a list is that of the power that its length tells. -/
theorem coeff_poly_cons (c : Int) (p : Poly) : (poly R (c :: p)).coeff p.length = (c : R) := by
  rw [coeff_poly, coefficient_cons, if_pos rfl]

/-! ## 2. Operations -/

theorem poly_zero_cons (p : Poly) : poly R (0 :: p) = p.poly R := by simp

theorem poly_trim (p : Poly) : p.trim.poly R = p.poly R := by
  induction p with
  | nil => rfl
  | cons c p ih =>
    by_cases hc : c = 0
    · have htrim : trim (c :: p) = trim p := by simp [trim, hc]
      rw [htrim, ih, hc, poly_zero_cons]
    · have htrim : trim (c :: p) = c :: p := by simp [trim, hc]
      rw [htrim]

theorem poly_map_neg (p : Poly) : poly R (p.map (-·)) = -p.poly R := by
  induction p with
  | nil => simp
  | cons c p ih =>
    rw [List.map_cons, poly_cons, poly_cons, ih, List.length_map, Int.cast_neg, C_neg]
    ring

theorem poly_map_mul (a : Int) (p : Poly) : poly R (p.map (a * ·)) = C (a : R) * p.poly R := by
  induction p with
  | nil => simp
  | cons c p ih =>
    rw [List.map_cons, poly_cons, poly_cons, ih, List.length_map, Int.cast_mul, C_mul]
    ring

theorem length_derivative (p : Poly) : p.derivative.length = p.length - 1 := by
  fun_induction derivative p with
  | case1 => rfl
  | case2 c => rfl
  | case3 c p hp ih =>
    cases p with
    | nil => exact absurd rfl hp
    | cons d p => simp [ih]

theorem poly_derivative (p : Poly) : p.derivative.poly R = Polynomial.derivative (p.poly R) := by
  fun_induction derivative p with
  | case1 => simp
  | case2 c => simp
  | case3 c p hp ih =>
    rw [poly_cons, poly_cons, ih, length_derivative, Polynomial.derivative_add,
      Polynomial.derivative_C_mul_X_pow]
    push_cast
    rfl

/-- A common multiple of leading terms taken off: the second polynomial is shifted so that it starts
    where the first one does. -/
theorem poly_combine (a b : Int) {p q : Poly} (h : q.length ≤ p.length) :
    poly R (combine a p b q) =
      C (a : R) * p.poly R - C (b : R) * (X ^ (p.length - q.length) * q.poly R) := by
  fun_induction combine a p b q with
  | case1 q =>
    obtain rfl := List.length_eq_zero_iff.1 (Nat.le_zero.1 h)
    simp
  | case2 c p ih =>
    rw [poly_cons, poly_cons, ih (Nat.zero_le _), length_combine]
    simp only [poly_nil, mul_zero, sub_zero]
    push_cast
    rw [C_mul]
    ring
  | case3 c p d q ih =>
    have hlength : q.length ≤ p.length := Nat.le_of_succ_le_succ h
    have hsub : (c :: p).length - (d :: q).length = p.length - q.length := by simp
    have hpower : (X : R[X]) ^ p.length = X ^ (p.length - q.length) * X ^ q.length := by
      rw [← pow_add, Nat.sub_add_cancel hlength]
    rw [poly_cons, poly_cons, poly_cons, ih hlength, length_combine, hsub]
    push_cast
    rw [C_sub, C_mul, C_mul, hpower]
    ring

end Ring

/-! ## 3. Lists without leading zeros -/

/-- The first coefficient, if there is one, is not zero. -/
def IsTrimmed (p : Poly) : Prop := p = [] ∨ p.leading ≠ 0

theorem isTrimmed_nil : IsTrimmed [] := .inl rfl

theorem isTrimmed_trim (p : Poly) : p.trim.IsTrimmed := by
  induction p with
  | nil => exact isTrimmed_nil
  | cons c p ih =>
    by_cases hc : c = 0
    · have htrim : trim (c :: p) = trim p := by simp [trim, hc]
      rw [htrim]
      exact ih
    · have htrim : trim (c :: p) = c :: p := by simp [trim, hc]
      rw [htrim]
      exact .inr hc

theorem trim_eq_nil_iff {p : Poly} : p.trim = [] ↔ ∀ c ∈ p, c = 0 := by
  simp [trim]

theorem IsTrimmed.trim_eq {p : Poly} (h : p.IsTrimmed) : p.trim = p := by
  rcases p with _ | ⟨c, p⟩
  · rfl
  · have hc : c ≠ 0 := h.resolve_left (List.cons_ne_nil c p)
    simp [trim, hc]

theorem IsTrimmed.leading_ne_zero {p : Poly} (h : p.IsTrimmed) (hne : p ≠ []) : p.leading ≠ 0 :=
  h.resolve_left hne

theorem length_trim_le (p : Poly) : p.trim.length ≤ p.length :=
  (List.dropWhile_suffix _).length_le

theorem isTrimmed_of_leading_ne_zero {p : Poly} (h : p.leading ≠ 0) : p.IsTrimmed := .inr h

theorem ne_nil_of_leading_ne_zero {p : Poly} (h : p.leading ≠ 0) : p ≠ [] := by
  rintro rfl
  exact h rfl

section Domain

variable {R : Type*} [CommRing R] [CharZero R] {p : Poly}

theorem poly_ne_zero (h : p.leading ≠ 0) : p.poly R ≠ 0 := by
  rcases p with _ | ⟨c, p⟩
  · exact absurd rfl h
  · intro hzero
    have hcoeff := coeff_poly_cons (R := R) c p
    rw [hzero, coeff_zero] at hcoeff
    exact h (Int.cast_eq_zero.1 hcoeff.symm)

/-- **Only the empty list and zeros are the polynomial zero.** -/
theorem poly_eq_zero_iff : p.poly R = 0 ↔ p.trim = [] := by
  constructor
  · intro h
    by_contra hne
    rw [← poly_trim] at h
    exact poly_ne_zero ((isTrimmed_trim p).leading_ne_zero hne) h
  · intro h
    rw [← poly_trim, h, poly_nil]

theorem natDegree_poly (h : p.leading ≠ 0) : (p.poly R).natDegree = p.degree := by
  rcases p with _ | ⟨c, p⟩
  · exact absurd rfl h
  · have hcoeff : (poly R (c :: p)).coeff p.length ≠ 0 := by
      rw [coeff_poly_cons]
      exact Int.cast_ne_zero.2 h
    exact natDegree_eq_of_le_of_coeff_ne_zero (natDegree_poly_le _) hcoeff

theorem leadingCoeff_poly (h : p.leading ≠ 0) : (p.poly R).leadingCoeff = (p.leading : R) := by
  rw [leadingCoeff, natDegree_poly h]
  rcases p with _ | ⟨c, p⟩
  · exact absurd rfl h
  · exact coeff_poly_cons c p

end Domain

end Credal.Poly
