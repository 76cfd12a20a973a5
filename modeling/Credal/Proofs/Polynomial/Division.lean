import Credal.Proofs.Polynomial.Rings
import Mathlib.RingTheory.Polynomial.Content
import Mathlib.Algebra.Polynomial.Degree.Operations

/-!
# Division with remainder

The remainder of a division is shorter than the divisor, and it is what is left of a positive
multiple of the dividend. The quotient by a polynomial that divides with integer coefficients is
found by dividing leading coefficients.

* `length_remainder_lt`, `exists_remainder`: the remainder;
* `exists_poly_primitive`, `isPrimitive_poly_primitive`: the polynomial divided by its content;
* `divideExact_poly`: the quotient.
-/

namespace Credal.Poly

open Polynomial

/-! ## 1. Remainders -/

theorem length_remainder_lt {q : Poly} (hq : q ≠ []) (p : Poly) :
    (remainder p q).length < q.length := by
  fun_induction remainder p q with
  | case1 => exact List.length_pos_of_ne_nil hq
  | case2 c rest h => exact h
  | case3 rest h ih => exact ih
  | case4 c rest h hc ih => exact ih

/-- The size of an integer is its sign times it. -/
theorem natAbs_eq_sign_mul (a : Int) : (a.natAbs : Int) = a.sign * a := by
  rw [Int.sign_mul_self_eq_natAbs]

section Ring

variable (R : Type*) [CommRing R]

/-- One step of the division, with the first coefficients of both polynomials. -/
theorem poly_step (c lead : Int) {rest tail : Poly} (h : tail.length ≤ rest.length) :
    C ((lead.natAbs : Int) : R) * poly R (c :: rest) =
      C ((lead.sign * c : Int) : R) * X ^ (rest.length - tail.length) * poly R (lead :: tail) +
        poly R (combine lead.natAbs rest (lead.sign * c) tail) := by
  have hpower : (X : R[X]) ^ rest.length = X ^ (rest.length - tail.length) * X ^ tail.length := by
    rw [← pow_add, Nat.sub_add_cancel h]
  rw [poly_combine _ _ h, poly_cons, poly_cons, hpower, natAbs_eq_sign_mul]
  push_cast
  simp only [C_mul]
  ring

/-- **Division with remainder**: a positive multiple of the dividend is a multiple of the divisor
    and the remainder. -/
theorem exists_remainder {q : Poly} (hq : q.leading ≠ 0) (p : Poly) :
    ∃ a : Int, 0 < a ∧ ∃ k : R[X],
      C (a : R) * p.poly R = k * q.poly R + (remainder p q).poly R := by
  rcases q with _ | ⟨lead, tail⟩
  · exact absurd rfl hq
  · have hpos : 0 < (lead.natAbs : Int) := Int.natCast_pos.2 (Int.natAbs_pos.2 hq)
    fun_induction remainder p (lead :: tail) with
    | case1 => exact ⟨1, one_pos, 0, by simp⟩
    | case2 c rest h => exact ⟨1, one_pos, 0, by simp⟩
    | case3 rest h ih =>
      rw [poly_zero_cons]
      exact ih
    | case4 c rest h hc ih =>
      obtain ⟨a, ha, k, hk⟩ := ih
      have hlength : tail.length ≤ rest.length := by simpa using h
      refine ⟨a * lead.natAbs, mul_pos ha hpos,
        C (a : R) * C ((lead.sign * c : Int) : R) * X ^ (rest.length - tail.length) + k, ?_⟩
      have hstep := poly_step R c lead hlength
      calc C ((a * lead.natAbs : Int) : R) * poly R (c :: rest)
          = C (a : R) * (C ((lead.natAbs : Int) : R) * poly R (c :: rest)) := by
            push_cast
            rw [C_mul, mul_assoc]
        _ = _ := by
            rw [hstep, mul_add]
            exact (congrArg _ hk).trans (by ring)

end Ring

/-! ## 2. Contents -/

/-- The integers that divide the content are those that divide all coefficients. -/
theorem dvd_content_iff {p : Poly} {d : Nat} : d ∣ p.content ↔ ∀ c ∈ p, (d : Int) ∣ c := by
  have hfold : ∀ g : Nat, d ∣ p.foldl (fun g c => Nat.gcd g c.natAbs) g ↔
      d ∣ g ∧ ∀ c ∈ p, (d : Int) ∣ c := by
    induction p with
    | nil => simp
    | cons c p ih =>
      intro g
      rw [List.foldl_cons, ih, Nat.dvd_gcd_iff, Int.natCast_dvd.symm, List.forall_mem_cons,
        and_assoc]
  rw [content, hfold]
  simp

/-- **The content is taken out of every coefficient.** -/
theorem exists_eq_map_primitive (p : Poly) :
    ∃ g : Int, 0 < g ∧ p = p.primitive.map (g * ·) ∧ (p.primitive = p ∨ g = p.content) := by
  by_cases hg : p.content ≤ 1
  · have hprimitive : p.primitive = p := if_pos hg
    exact ⟨1, one_pos, by simp [hprimitive], .inl hprimitive⟩
  · have hprimitive : p.primitive = p.map (· / (p.content : Int)) := if_neg hg
    have hdvd : ∀ c ∈ p, (p.content : Int) ∣ c := dvd_content_iff.1 dvd_rfl
    refine ⟨p.content, by omega, ?_, .inr rfl⟩
    rw [hprimitive, List.map_map]
    refine (List.map_id' p).symm.trans (List.map_congr_left fun c hc => ?_)
    exact (Int.mul_ediv_cancel' (hdvd c hc)).symm

theorem length_primitive (p : Poly) : p.primitive.length = p.length := by
  obtain ⟨g, -, hp, -⟩ := exists_eq_map_primitive p
  exact (List.length_map _).symm.trans (congrArg List.length hp.symm)

/-- The polynomial is a positive multiple of the one divided by its content. -/
theorem exists_poly_primitive (R : Type*) [CommRing R] (p : Poly) :
    ∃ g : Int, 0 < g ∧ p.poly R = C (g : R) * p.primitive.poly R := by
  obtain ⟨g, hg, hp, -⟩ := exists_eq_map_primitive p
  refine ⟨g, hg, ?_⟩
  conv_lhs => rw [hp]
  exact poly_map_mul g p.primitive

theorem isTrimmed_primitive {p : Poly} (h : p.IsTrimmed) : p.primitive.IsTrimmed := by
  obtain ⟨g, hg, hp, -⟩ := exists_eq_map_primitive p
  rcases hq : p.primitive with _ | ⟨c, q⟩
  · exact isTrimmed_nil
  · refine .inr fun hc => ?_
    obtain rfl : c = 0 := hc
    rw [hq, List.map_cons, mul_zero] at hp
    rw [hp] at h
    exact h.leading_ne_zero (List.cons_ne_nil _ _) rfl

theorem primitive_eq_nil_iff {p : Poly} : p.primitive = [] ↔ p = [] := by
  rw [← List.length_eq_zero_iff, length_primitive, List.length_eq_zero_iff]

theorem content_primitive {p : Poly} (hp : p.trim ≠ []) : p.primitive.content = 1 := by
  by_cases hg : p.content ≤ 1
  · have hprimitive : p.primitive = p := if_pos hg
    have hzero : p.content ≠ 0 := by
      intro h
      refine hp (trim_eq_nil_iff.2 fun c hc => ?_)
      exact Int.zero_dvd.1 (dvd_content_iff.1 h.symm.dvd c hc)
    rw [hprimitive]
    omega
  · obtain ⟨g, hg', hmap, hcontent⟩ := exists_eq_map_primitive p
    -- A divisor of what is left, times the content, divides the content.
    have hall : ∀ c ∈ p, ((p.content * p.primitive.content : Nat) : Int) ∣ c := by
      have hprimitive : p.primitive = p.map (· / (p.content : Int)) := if_neg hg
      intro c hc
      have hquotient : ((p.primitive.content : Nat) : Int) ∣ c / p.content :=
        dvd_content_iff.1 dvd_rfl _ (hprimitive ▸ List.mem_map_of_mem hc)
      rw [← Int.mul_ediv_cancel' (dvd_content_iff.1 dvd_rfl c hc), Nat.cast_mul]
      exact mul_dvd_mul_left _ hquotient
    have hdvd : p.content * p.primitive.content ∣ p.content * 1 := by
      rw [mul_one]
      exact dvd_content_iff.2 hall
    exact Nat.dvd_one.1 (Nat.dvd_of_mul_dvd_mul_left (by omega) hdvd)

theorem exists_coefficient_eq {p : Poly} {c : Int} (hc : c ∈ p) : ∃ k, p.coefficient k = c := by
  obtain ⟨before, after, rfl⟩ := List.append_of_mem hc
  refine ⟨after.length, ?_⟩
  rw [coefficient, List.reverse_append, List.reverse_cons, List.append_assoc,
    List.getD_append_right _ _ _ _ (List.length_reverse.le)]
  simp

/-- **A polynomial divided by its content is primitive.** -/
theorem isPrimitive_poly_primitive {p : Poly} (hp : p.trim ≠ []) :
    (p.primitive.poly ℤ).IsPrimitive := by
  intro d hd
  have hcoefficients : ∀ c ∈ p.primitive, (d.natAbs : Int) ∣ c := by
    intro c hc
    obtain ⟨k, rfl⟩ := exists_coefficient_eq hc
    have hdvd := (C_dvd_iff_dvd_coeff d _).1 hd k
    rw [coeff_poly] at hdvd
    exact Int.natAbs_dvd.2 hdvd
  have hunit : d.natAbs ∣ p.primitive.content := dvd_content_iff.2 hcoefficients
  rw [content_primitive hp, Nat.dvd_one] at hunit
  exact Int.isUnit_iff_natAbs_eq.2 hunit

/-! ## 3. Quotients -/

theorem length_divideExact {q : Poly} (hq : q ≠ []) (p : Poly) :
    (divideExact p q).length = p.length + 1 - q.length := by
  have hpos : 0 < q.length := List.length_pos_of_ne_nil hq
  fun_induction divideExact p q with
  | case1 =>
    rw [List.length_nil]
    omega
  | case2 c rest h =>
    rw [List.length_nil]
    omega
  | case3 c rest h d ih =>
    rw [List.length_cons, ih, length_combine]
    rw [List.length_cons] at h ⊢
    omega

/-- A multiple of a polynomial is not shorter, unless it is zero. -/
theorem eq_zero_of_length_lt {p q : Poly} (hq : q.leading ≠ 0) {h : ℤ[X]}
    (heq : p.poly ℤ = q.poly ℤ * h) (hlt : p.length < q.length) : h = 0 := by
  by_contra hne
  have hle : (q.poly ℤ).degree ≤ (p.poly ℤ).degree := by
    rw [heq, degree_mul]
    exact le_add_of_nonneg_right (zero_le_degree_iff.2 hne)
  have hdegree : (q.poly ℤ).degree = (q.degree : WithBot ℕ) := by
    rw [degree_eq_natDegree (poly_ne_zero hq), natDegree_poly hq]
  rw [hdegree] at hle
  have hlength : q.degree < p.length := by exact_mod_cast hle.trans_lt (degree_poly_lt p)
  have hpred : q.degree = q.length - 1 := rfl
  omega

/-- One step of an exact division: the quotient of the first coefficients is the first coefficient
    of the quotient, so what is left is a multiple too. -/
theorem quotient_step {c lead : Int} {rest tail : Poly} (hlead : leading (lead :: tail) ≠ 0)
    {h : ℤ[X]} (heq : poly ℤ (c :: rest) = poly ℤ (lead :: tail) * h)
    (hlength : tail.length ≤ rest.length) :
    poly ℤ (combine 1 rest (c / lead) tail) = poly ℤ (lead :: tail) *
      (h - C (c / lead) * X ^ (rest.length - tail.length)) := by
  have hsum : tail.length + (rest.length - tail.length) = rest.length :=
    Nat.add_sub_cancel' hlength
  have hdegree : h.natDegree ≤ rest.length - tail.length := by
    rcases eq_or_ne h 0 with rfl | hne
    · simp
    · have hle : (poly ℤ (c :: rest)).natDegree ≤ rest.length := natDegree_poly_le (c :: rest)
      rw [heq, natDegree_mul (poly_ne_zero hlead) hne, natDegree_poly hlead] at hle
      have hpred : degree (lead :: tail) = tail.length := rfl
      omega
  have hc : c = lead * h.coeff (rest.length - tail.length) := by
    have hle : (poly ℤ (lead :: tail)).natDegree ≤ tail.length := natDegree_poly_le (lead :: tail)
    have hcoeff := coeff_mul_add_eq_of_natDegree_le hle hdegree
    rw [hsum, ← heq, coeff_poly_cons, coeff_poly_cons] at hcoeff
    simpa using hcoeff
  have hd : c / lead = h.coeff (rest.length - tail.length) :=
    (congrArg (· / lead) hc).trans (Int.mul_ediv_cancel_left _ hlead)
  have hpower : (X : ℤ[X]) ^ rest.length = X ^ tail.length * X ^ (rest.length - tail.length) := by
    rw [← pow_add, hsum]
  have hfirst : C c = C lead * C (c / lead) := by rw [← C_mul, hd, ← hc]
  rw [mul_sub, ← heq, poly_combine _ _ hlength, poly_cons, poly_cons, hpower]
  simp only [Int.cast_id, Int.cast_one, C_1, hfirst]
  ring

/-- **The quotient** of a multiple of a polynomial by the polynomial. -/
theorem divideExact_poly {q : Poly} (hq : q.leading ≠ 0) (p : Poly) {h : ℤ[X]}
    (heq : p.poly ℤ = q.poly ℤ * h) : (divideExact p q).poly ℤ = h := by
  rcases q with _ | ⟨lead, tail⟩
  · exact absurd rfl hq
  · fun_induction divideExact p (lead :: tail) generalizing h with
    | case1 => exact (eq_zero_of_length_lt hq heq (by simp)).symm
    | case2 c rest hlt => exact (eq_zero_of_length_lt hq heq hlt).symm
    | case3 c rest hlt d =>
      rename_i ih
      have hlength : tail.length ≤ rest.length := by simpa using hlt
      rw [poly_cons, ih (quotient_step hq heq hlength),
        length_divideExact (List.cons_ne_nil _ _), length_combine, List.length_cons,
        Nat.add_sub_add_right, Int.cast_id]
      exact add_sub_cancel _ _

end Credal.Poly
