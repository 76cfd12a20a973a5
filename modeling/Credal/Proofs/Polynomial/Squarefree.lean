import Credal.Proofs.Polynomial.Division
import Mathlib.Algebra.Polynomial.FieldDivision
import Mathlib.RingTheory.Polynomial.GaussLemma

/-!
# Squarefree polynomials

Euclid's algorithm keeps the common divisors of two polynomials over any field of characteristic
zero. A root of a polynomial is one of its derivative with one multiplicity less, so what is left
after a division by their common divisor has the same roots, each once.

* `dvd_gcd_iff`: the common divisors;
* `associated_squarefree`: the division by the common divisor of a polynomial and its derivative;
* `rootMultiplicity_quotient`: the multiplicities after such a division;
* `leading_squarefree`, `squarefree_isRoot_iff`, `derivative_squarefree_ne_zero`: the squarefree
  polynomial.
-/

namespace Credal.Poly

open Polynomial

variable {K : Type*} [Field K] [CharZero K] {p q : Poly} {d : K[X]}

/-! ## 1. Common divisors -/

theorem dvd_remainder_iff (hq : q.leading ≠ 0) (hd : d ∣ q.poly K) :
    d ∣ (remainder p q).poly K ↔ d ∣ p.poly K := by
  obtain ⟨a, ha, k, hk⟩ := exists_remainder K hq p
  have hunit : IsUnit (C (a : K)) :=
    isUnit_C.2 (isUnit_iff_ne_zero.2 (Int.cast_ne_zero.2 ha.ne'))
  rw [← hunit.dvd_mul_left (b := p.poly K), hk, dvd_add_right (hd.mul_left k)]

theorem associated_primitive (K : Type*) [Field K] [CharZero K] (p : Poly) :
    Associated (p.primitive.poly K) (p.poly K) := by
  obtain ⟨g, hg, hp⟩ := exists_poly_primitive K p
  have hunit : IsUnit (C (g : K)) :=
    isUnit_C.2 (isUnit_iff_ne_zero.2 (Int.cast_ne_zero.2 hg.ne'))
  rw [hp]
  exact (associated_unit_mul_left _ _ hunit).symm

/-- Without leading zeros and divided by the content. -/
def IsReduced (p : Poly) : Prop := ∃ s : Poly, p = s.trim.primitive

theorem IsReduced.isTrimmed (h : p.IsReduced) : p.IsTrimmed := by
  obtain ⟨s, rfl⟩ := h
  exact isTrimmed_primitive (isTrimmed_trim s)

theorem IsReduced.isPrimitive (h : p.IsReduced) (hne : p ≠ []) : (p.poly ℤ).IsPrimitive := by
  obtain ⟨s, rfl⟩ := h
  refine isPrimitive_poly_primitive fun hnil => hne ?_
  rw [(isTrimmed_trim s).trim_eq] at hnil
  exact primitive_eq_nil_iff.2 hnil

/-- **Euclid's algorithm keeps the common divisors.** -/
theorem dvd_gcdWithin_iff {fuel : Nat} (hq : q.IsTrimmed) (hfuel : q.length < fuel) :
    d ∣ (gcdWithin fuel p q).poly K ↔ d ∣ p.poly K ∧ d ∣ q.poly K := by
  induction fuel generalizing p q with
  | zero => exact absurd hfuel (Nat.not_lt_zero _)
  | succ fuel ih =>
    rcases q with _ | ⟨lead, tail⟩
    · simp [gcdWithin]
    · have hlead : leading (lead :: tail) ≠ 0 := hq.leading_ne_zero (List.cons_ne_nil _ _)
      have hlength : (remainder p (lead :: tail)).trim.primitive.length < fuel := by
        rw [length_primitive]
        have htrim := length_trim_le (remainder p (lead :: tail))
        have hshorter := length_remainder_lt (List.cons_ne_nil lead tail) p
        omega
      have hreduced := isTrimmed_primitive (isTrimmed_trim (remainder p (lead :: tail)))
      have hrest : d ∣ (remainder p (lead :: tail)).trim.primitive.poly K ↔
          d ∣ (remainder p (lead :: tail)).poly K := by
        rw [(associated_primitive K _).dvd_iff_dvd_right, poly_trim]
      rw [gcdWithin, ih hreduced hlength, hrest]
      · constructor
        · rintro ⟨hd, hr⟩
          exact ⟨(dvd_remainder_iff hlead hd).1 hr, hd⟩
        · rintro ⟨hp, hd⟩
          exact ⟨hd, (dvd_remainder_iff hlead hd).2 hp⟩
      · exact List.cons_ne_nil _ _

theorem isReduced_gcdWithin (fuel : Nat) (hp : p.IsReduced) (hq : q.IsReduced) :
    (gcdWithin fuel p q).IsReduced := by
  fun_induction gcdWithin fuel p q with
  | case1 => exact hp
  | case2 => exact hp
  | case3 p fuel q hne ih => exact ih hq ⟨_, rfl⟩

/-- **The common divisors** of two polynomials. -/
theorem dvd_gcd_iff : d ∣ (gcd p q).poly K ↔ d ∣ p.poly K ∧ d ∣ q.poly K := by
  have hlength : q.trim.primitive.length < q.length + 1 := by
    rw [length_primitive]
    exact Nat.lt_succ_of_le (length_trim_le q)
  rw [gcd, dvd_gcdWithin_iff (isTrimmed_primitive (isTrimmed_trim q)) hlength,
    (associated_primitive K _).dvd_iff_dvd_right, (associated_primitive K _).dvd_iff_dvd_right,
    poly_trim, poly_trim]

theorem isReduced_gcd (p q : Poly) : (gcd p q).IsReduced :=
  isReduced_gcdWithin _ ⟨p, rfl⟩ ⟨q, rfl⟩

theorem gcd_ne_nil (hp : p.leading ≠ 0) (q : Poly) : gcd p q ≠ [] := by
  intro hnil
  have hdvd : (0 : ℚ[X]) ∣ p.poly ℚ := (dvd_gcd_iff.1 (by rw [hnil, poly_nil])).1
  exact poly_ne_zero hp (zero_dvd_iff.1 hdvd)

/-! ## 2. Multiplicities -/

omit [CharZero K] in
theorem rootMultiplicity_eq_of_associated {f g : K[X]} (hf : f ≠ 0) (h : Associated f g) (x : K) :
    f.rootMultiplicity x = g.rootMultiplicity x := by
  have hg : g ≠ 0 := fun hzero => hf (h.eq_zero_iff.2 hzero)
  refine le_antisymm ?_ ?_
  · exact (le_rootMultiplicity_iff hg).2 ((pow_rootMultiplicity_dvd f x).trans h.dvd)
  · exact (le_rootMultiplicity_iff hf).2 ((pow_rootMultiplicity_dvd g x).trans h.symm.dvd)

/-- **A quotient by the common divisors of a polynomial and its derivative** has the roots of the
    polynomial, each once. -/
theorem rootMultiplicity_quotient {f g s : K[X]} (hf : f ≠ 0)
    (hg : ∀ d, d ∣ g ↔ d ∣ f ∧ d ∣ Polynomial.derivative f) (hs : Associated f (g * s)) (x : K) :
    s.rootMultiplicity x = min 1 (f.rootMultiplicity x) := by
  have hgs : g * s ≠ 0 := fun h => hf (hs.eq_zero_iff.2 h)
  have hsum : f.rootMultiplicity x = g.rootMultiplicity x + s.rootMultiplicity x := by
    rw [rootMultiplicity_eq_of_associated hf hs, rootMultiplicity_mul hgs]
  by_cases hroot : f.IsRoot x
  · have hpos : 0 < f.rootMultiplicity x := (rootMultiplicity_pos hf).2 hroot
    have hderivative : (Polynomial.derivative f).rootMultiplicity x = f.rootMultiplicity x - 1 :=
      derivative_rootMultiplicity_of_root hroot
    have hne : Polynomial.derivative f ≠ 0 := by
      intro hzero
      have hconst := eq_C_of_natDegree_eq_zero (derivative_eq_zero.1 hzero)
      rw [hconst, IsRoot.def, eval_C] at hroot
      rw [hconst, hroot, C_0] at hf
      exact hf rfl
    -- The common divisor has the root with the multiplicity that it has in the derivative.
    have hcommon : g.rootMultiplicity x = f.rootMultiplicity x - 1 := by
      refine le_antisymm ?_ ?_
      · rw [← hderivative]
        exact (le_rootMultiplicity_iff hne).2
          ((pow_rootMultiplicity_dvd g x).trans ((hg g).1 dvd_rfl).2)
      · refine (le_rootMultiplicity_iff (left_ne_zero_of_mul hgs)).2 ((hg _).2 ⟨?_, ?_⟩)
        · exact (pow_dvd_pow _ (Nat.sub_le _ 1)).trans (pow_rootMultiplicity_dvd f x)
        · rw [← hderivative]
          exact pow_rootMultiplicity_dvd _ x
    omega
  · have hzero : f.rootMultiplicity x = 0 := rootMultiplicity_eq_zero hroot
    omega

/-! ## 3. The squarefree polynomial -/

theorem associated_positive (K : Type*) [Field K] [CharZero K] (p : Poly) :
    Associated (p.positive.poly K) (p.poly K) := by
  rw [positive]
  split
  · rw [poly_map_neg]
    exact Associated.neg_left (Associated.refl _)
  · rfl

theorem leading_positive (hp : p.leading ≠ 0) : 0 < p.positive.leading := by
  rw [positive]
  split
  · rename_i hneg
    rcases p with _ | ⟨c, p⟩
    · exact absurd rfl hp
    · exact Int.neg_pos_of_neg hneg
  · rename_i hnonneg
    exact lt_of_le_of_ne (not_lt.1 hnonneg) hp.symm

/-- A list whose length tells the degree has no leading zeros. -/
theorem leading_ne_zero_of_natDegree (hne : p.poly ℤ ≠ 0) (h : (p.poly ℤ).natDegree = p.degree) :
    p.leading ≠ 0 := by
  rcases p with _ | ⟨c, p⟩
  · exact absurd rfl hne
  · have hcoeff : (poly ℤ (c :: p)).coeff p.length ≠ 0 := by
      rw [← show (poly ℤ (c :: p)).natDegree = p.length from h]
      exact leadingCoeff_ne_zero.2 hne
    rw [coeff_poly_cons] at hcoeff
    exact hcoeff

theorem leading_divideExact (hp : p.leading ≠ 0) (hq : q.leading ≠ 0)
    (h : q.poly ℤ ∣ p.poly ℤ) : (divideExact p q).leading ≠ 0 := by
  obtain ⟨r, hr⟩ := h
  have hover := divideExact_poly hq p hr
  have hne : r ≠ 0 := by
    rintro rfl
    rw [mul_zero] at hr
    exact poly_ne_zero hp hr
  have hdegree : (p.poly ℤ).natDegree = (q.poly ℤ).natDegree + r.natDegree := by
    rw [hr, natDegree_mul (poly_ne_zero hq) hne]
  rw [natDegree_poly hp, natDegree_poly hq] at hdegree
  refine leading_ne_zero_of_natDegree (hover ▸ hne) ?_
  have hlength := length_divideExact (ne_nil_of_leading_ne_zero hq) p
  have hppos := List.length_pos_of_ne_nil (ne_nil_of_leading_ne_zero hp)
  have hqpos := List.length_pos_of_ne_nil (ne_nil_of_leading_ne_zero hq)
  rw [hover, degree, hlength]
  rw [degree, degree] at hdegree
  omega

section Squarefree

variable (hp : p.trim ≠ [])

include hp

theorem leading_primitive_trim : p.trim.primitive.leading ≠ 0 :=
  (isTrimmed_primitive (isTrimmed_trim p)).leading_ne_zero (primitive_eq_nil_iff.not.2 hp)

/-- The common divisor divides with integer coefficients. -/
theorem gcd_dvd : (gcd p.trim.primitive p.trim.primitive.derivative).poly ℤ ∣
    p.trim.primitive.poly ℤ := by
  have hreduced := isReduced_gcd p.trim.primitive p.trim.primitive.derivative
  have hne := gcd_ne_nil (leading_primitive_trim hp) p.trim.primitive.derivative
  rw [IsPrimitive.Int.dvd_iff_map_cast_dvd_map_cast _ _ (hreduced.isPrimitive hne), map_poly,
    map_poly]
  exact (dvd_gcd_iff.1 dvd_rfl).1

theorem leading_squarefree : 0 < p.squarefree.leading := by
  have hprimitive := leading_primitive_trim hp
  have hreduced := isReduced_gcd p.trim.primitive p.trim.primitive.derivative
  have hgcd := hreduced.isTrimmed.leading_ne_zero (gcd_ne_nil hprimitive _)
  rw [squarefree]
  refine leading_positive ?_
  split
  · exact hprimitive
  · have hquotient := leading_divideExact hprimitive hgcd (gcd_dvd hp)
    refine (isTrimmed_primitive (isTrimmed_of_leading_ne_zero hquotient)).leading_ne_zero ?_
    exact primitive_eq_nil_iff.not.2 (ne_nil_of_leading_ne_zero hquotient)

/-- **The squarefree polynomial is the quotient by the common divisor.** -/
theorem associated_squarefree (K : Type*) [Field K] [CharZero K] :
    Associated (p.trim.primitive.poly K)
      ((gcd p.trim.primitive p.trim.primitive.derivative).poly K * p.squarefree.poly K) := by
  have hprimitive := leading_primitive_trim hp
  have hreduced := isReduced_gcd p.trim.primitive p.trim.primitive.derivative
  have hgcd := hreduced.isTrimmed.leading_ne_zero (gcd_ne_nil hprimitive _)
  rw [squarefree]
  refine Associated.trans ?_ ((associated_positive K _).symm.mul_left _)
  split
  · rename_i hdegree
    have hconstant := natDegree_poly (R := K) hgcd
    rw [hdegree] at hconstant
    have hunit : IsUnit ((gcd p.trim.primitive p.trim.primitive.derivative).poly K) :=
      isUnit_iff_degree_eq_zero.2 ((degree_eq_iff_natDegree_eq (poly_ne_zero hgcd)).2 hconstant)
    exact (associated_unit_mul_left _ _ hunit).symm
  · obtain ⟨r, hr⟩ := gcd_dvd hp
    have hover := congrArg (Polynomial.map (Int.castRingHom K)) hr
    rw [Polynomial.map_mul, map_poly, map_poly, ← divideExact_poly hgcd _ hr, map_poly] at hover
    rw [hover]
    exact (associated_primitive K _).symm.mul_left _

theorem rootMultiplicity_squarefree (x : K) :
    (p.squarefree.poly K).rootMultiplicity x = min 1 ((p.poly K).rootMultiplicity x) := by
  have hassociated : Associated (p.trim.primitive.poly K) (p.poly K) := by
    have h := associated_primitive K p.trim
    rw [poly_trim] at h
    exact h
  have hne := poly_ne_zero (R := K) (leading_primitive_trim hp)
  have hgcd : ∀ d, d ∣ (gcd p.trim.primitive p.trim.primitive.derivative).poly K ↔
      d ∣ p.trim.primitive.poly K ∧ d ∣ Polynomial.derivative (p.trim.primitive.poly K) := by
    intro d
    rw [dvd_gcd_iff, poly_derivative]
  rw [rootMultiplicity_quotient hne hgcd (associated_squarefree hp K),
    rootMultiplicity_eq_of_associated hne hassociated]

/-- **The squarefree polynomial has the same roots.** -/
theorem squarefree_isRoot_iff (x : K) :
    (p.squarefree.poly K).IsRoot x ↔ (p.poly K).IsRoot x := by
  rw [← rootMultiplicity_pos (poly_ne_zero (leading_squarefree hp).ne'),
    ← rootMultiplicity_pos (poly_eq_zero_iff.not.2 hp), rootMultiplicity_squarefree hp]
  omega

/-- **Its roots are simple.** -/
theorem derivative_squarefree_ne_zero {x : K} (hx : (p.squarefree.poly K).IsRoot x) :
    (p.squarefree.derivative.poly K).eval x ≠ 0 := by
  intro hzero
  rw [poly_derivative] at hzero
  have hmultiple := (one_lt_rootMultiplicity_iff_isRoot
    (poly_ne_zero (leading_squarefree hp).ne')).2 ⟨hx, hzero⟩
  rw [rootMultiplicity_squarefree hp] at hmultiple
  omega

end Squarefree

end Credal.Poly
