import Credal.Polynomial.Sturm
import Credal.Proofs.Polynomial.Rings
import Mathlib.Analysis.Polynomial.Order
import Mathlib.Topology.Instances.Sign

/-!
# Signs of a polynomial

The sign of a polynomial at a real number is kept by all numbers near it, unless the number is a
root. Right of all roots it is the sign of the leading coefficient, and left of all roots that sign
too, or the other one if the degree is odd.

* `Poly.signIn`: the sign at a real number;
* `signAt_eq`: the sign at a quotient;
* `eventually_signIn_eq`: the signs near a number that is not a root;
* `eventually_signIn_of_root`: the signs near a simple root;
* `eventually_signIn_atTop`, `eventually_signIn_atBot`: the signs far away;
* `variations_zero_cons`, `variations_cons_cons`, `variations_cross`: the sign changes of a list.
-/

namespace Credal

open Filter Topology

/-! ## 1. Sign changes -/

theorem variations_zero_cons (l : List Int) : variations (0 :: l) = variations l := by
  simp [variations]

theorem variations_singleton (s : Int) : variations [s] = 0 := by
  by_cases hs : s = 0 <;> simp [variations, hs]

theorem variations_cons_cons {s t : Int} (hs : s ≠ 0) (ht : t ≠ 0) (l : List Int) :
    variations (s :: t :: l) = (if s = t then 0 else 1) + variations (t :: l) := by
  by_cases hst : s = t
  · simp [variations, ht, hst]
  · simp [variations, hs, ht, hst, Nat.add_comm]

/-- Between a sign and its opposite there is one change, whatever stands between them. -/
theorem variations_cross {s t : Int} (hs : s ≠ 0) (ht : t = 0 ∨ t = s ∨ t = -s) (l : List Int) :
    variations (s :: t :: -s :: l) = 1 + variations (-s :: l) := by
  have hneg : -s ≠ 0 := neg_ne_zero.2 hs
  have hne : s ≠ -s := fun h => hs (self_eq_neg.1 h)
  rcases ht with rfl | rfl | rfl
  · have hdrop : variations (s :: 0 :: -s :: l) = variations (s :: -s :: l) := by
      simp [variations, hs]
    rw [hdrop, variations_cons_cons hs hneg, if_neg hne]
  · rw [variations_cons_cons hs hs, if_pos rfl, variations_cons_cons hs hneg, if_neg hne, zero_add]
  · rw [variations_cons_cons hs hneg, variations_cons_cons hneg hneg, if_pos rfl, if_neg hne,
      zero_add]

namespace Poly

/-! ## 2. Signs -/

/-- The sign of the value at a real number. -/
noncomputable def signIn (p : Poly) (x : ℝ) : Int := (SignType.sign (p.valueIn x) : Int)

variable {p : Poly} {x c : ℝ}

theorem signIn_of_pos (h : 0 < p.valueIn x) : p.signIn x = 1 := by
  rw [signIn, sign_pos h]
  rfl

theorem signIn_of_neg (h : p.valueIn x < 0) : p.signIn x = -1 := by
  rw [signIn, sign_neg h]
  rfl

theorem signIn_eq_zero_iff : p.signIn x = 0 ↔ p.valueIn x = 0 := by
  rcases lt_trichotomy (p.valueIn x) 0 with h | h | h
  · simp [signIn_of_neg h, h.ne]
  · simp [signIn, h]
  · simp [signIn_of_pos h, h.ne']

theorem signIn_ne_zero_iff : p.signIn x ≠ 0 ↔ p.valueIn x ≠ 0 := signIn_eq_zero_iff.not

theorem valueIn_ne_zero_of_signIn_eq (h : p.signIn x = p.signIn c) (hc : p.valueIn c ≠ 0) :
    p.valueIn x ≠ 0 := by
  rw [← signIn_ne_zero_iff, h]
  exact signIn_ne_zero_iff.2 hc

/-- Every sign is zero, a given sign or its opposite. -/
theorem signIn_cases (h : p.valueIn c ≠ 0) (q : Poly) (x : ℝ) :
    q.signIn x = 0 ∨ q.signIn x = p.signIn c ∨ q.signIn x = -p.signIn c := by
  rcases lt_trichotomy (q.valueIn x) 0 with hq | hq | hq
  · rcases h.lt_or_gt with hp | hp
    · simp [signIn_of_neg hq, signIn_of_neg hp]
    · simp [signIn_of_neg hq, signIn_of_pos hp]
  · exact .inl (signIn_eq_zero_iff.2 hq)
  · rcases h.lt_or_gt with hp | hp
    · simp [signIn_of_pos hq, signIn_of_neg hp]
    · simp [signIn_of_pos hq, signIn_of_pos hp]

/-- **The sign at a quotient** is found without fractions. -/
theorem signAt_eq (p : Poly) (num : Int) {den : Int} (hden : 0 < den) :
    p.signAt num den = p.signIn (num / den) := by
  have hpos : (0 : ℝ) < den := Int.cast_pos.2 hden
  have hvalue := p.valueAt_mul_den (num / den : ℝ) num den (div_mul_cancel₀ _ hpos.ne')
  have hsign := congrArg SignType.sign hvalue
  rw [sign_mul, sign_mul, sign_pos hpos, sign_pos (pow_pos hpos _), mul_one, one_mul,
    sign_intCast] at hsign
  rw [signAt, signIn, ← hsign, Int.sign_eq_sign]

/-! ## 3. Signs near a number -/

theorem continuous_valueIn (p : Poly) : Continuous fun x : ℝ => p.valueIn x := by
  have hcontinuous := (p.poly ℝ).continuous
  simp only [eval_poly] at hcontinuous
  exact hcontinuous

theorem eventually_signIn_eq (h : p.valueIn c ≠ 0) : ∀ᶠ x in 𝓝 c, p.signIn x = p.signIn c := by
  have hcontinuous := p.continuous_valueIn.tendsto c
  rcases h.lt_or_gt with hneg | hpos
  · filter_upwards [hcontinuous.eventually_lt_const hneg] with x hx
    rw [signIn_of_neg hx, signIn_of_neg hneg]
  · filter_upwards [hcontinuous.eventually_const_lt hpos] with x hx
    rw [signIn_of_pos hx, signIn_of_pos hpos]

/-- **Near a simple root** the polynomial has the sign of its derivative to the right, and the
    opposite sign to the left. -/
theorem eventually_signIn_of_root (h : p.valueIn c = 0) (hsimple : p.derivative.valueIn c ≠ 0) :
    ∀ᶠ x in 𝓝 c, (x < c → p.signIn x = -p.derivative.signIn c) ∧
      (c < x → p.signIn x = p.derivative.signIn c) := by
  obtain ⟨g, hg⟩ := Polynomial.dvd_iff_isRoot.2 ((eval_poly p c).trans h)
  have hvalue : ∀ x, p.valueIn x = (x - c) * g.eval x := by
    intro x
    rw [← eval_poly, hg, Polynomial.eval_mul, Polynomial.eval_sub, Polynomial.eval_X,
      Polynomial.eval_C]
  have hderivative : p.derivative.valueIn c = g.eval c := by
    rw [← eval_poly, poly_derivative, hg]
    simp
  have hcontinuous := g.continuous.tendsto c
  rw [hderivative] at hsimple
  rcases hsimple.lt_or_gt with hneg | hpos
  · filter_upwards [hcontinuous.eventually_lt_const hneg] with x hx
    rw [signIn_of_neg (hderivative.trans_lt hneg)]
    refine ⟨fun hlt => ?_, fun hgt => ?_⟩
    · exact signIn_of_pos ((hvalue x).symm ▸ mul_pos_of_neg_of_neg (sub_neg.2 hlt) hx)
    · exact signIn_of_neg ((hvalue x).symm ▸ mul_neg_of_pos_of_neg (sub_pos.2 hgt) hx)
  · filter_upwards [hcontinuous.eventually_const_lt hpos] with x hx
    rw [signIn_of_pos (hpos.trans_eq hderivative.symm)]
    refine ⟨fun hlt => ?_, fun hgt => ?_⟩
    · exact signIn_of_neg ((hvalue x).symm ▸ mul_neg_of_neg_of_pos (sub_neg.2 hlt) hx)
    · exact signIn_of_pos ((hvalue x).symm ▸ mul_pos (sub_pos.2 hgt) hx)

/-! ## 4. Signs far away -/

/-- The distinct real roots. -/
noncomputable def realRoots (p : Poly) : Finset ℝ := (p.poly ℝ).roots.toFinset

theorem mem_realRoots (hp : p.leading ≠ 0) : x ∈ p.realRoots ↔ p.valueIn x = 0 := by
  rw [realRoots, Multiset.mem_toFinset, Polynomial.mem_roots (poly_ne_zero hp),
    Polynomial.IsRoot.def, eval_poly]

theorem signIn_of_roots_lt (hp : p.leading ≠ 0) (hx : ∀ r ∈ p.realRoots, r < x) :
    p.signIn x = signAtEnd false p := by
  have hroots : ∀ y, (p.poly ℝ).IsRoot y → y < x := fun y hy =>
    hx y ((mem_realRoots hp).2 ((eval_poly p y).symm.trans hy))
  have hlead := leadingCoeff_poly (R := ℝ) hp
  rw [signAtEnd, Bool.false_and, if_neg Bool.false_ne_true]
  rcases hp.lt_or_gt with hneg | hpos
  · have hle : (p.poly ℝ).leadingCoeff ≤ 0 := hlead.trans_le (Int.cast_nonpos.2 hneg.le)
    have hvalue := Polynomial.eval_lt_zero_of_roots_lt_of_leadingCoeff_nonpos hroots hle
    rw [signIn_of_neg ((eval_poly p x).symm.trans_lt hvalue), Int.sign_eq_neg_one_of_neg hneg]
  · have hle : 0 ≤ (p.poly ℝ).leadingCoeff := hlead.symm ▸ Int.cast_nonneg hpos.le
    have hvalue := Polynomial.zero_lt_eval_of_roots_lt_of_leadingCoeff_nonneg hroots hle
    rw [signIn_of_pos (hvalue.trans_eq (eval_poly p x)), Int.sign_eq_one_of_pos hpos]

theorem signIn_of_lt_roots (hp : p.leading ≠ 0) (hx : ∀ r ∈ p.realRoots, x < r) :
    p.signIn x = signAtEnd true p := by
  have hroots : ∀ y, (p.poly ℝ).IsRoot y → x < y := fun y hy =>
    hx y ((mem_realRoots hp).2 ((eval_poly p y).symm.trans hy))
  have hlead := leadingCoeff_poly (R := ℝ) hp
  -- The sign of the value, times minus one to the power of the degree, is that of the first
  -- coefficient.
  have hsign : SignType.sign (((-1 : ℝ) ^ p.degree) * p.valueIn x) = SignType.sign p.leading := by
    rw [← natDegree_poly (R := ℝ) hp, ← eval_poly]
    rcases hp.lt_or_gt with hneg | hpos
    · have hle : (p.poly ℝ).leadingCoeff ≤ 0 := hlead.trans_le (Int.cast_nonpos.2 hneg.le)
      have hvalue := Polynomial.negOnePow_mul_eval_lt_zero_of_lt_roots_of_leadingCoeff_nonpos
        hroots hle
      rw [Int.cast_negOnePow_natCast] at hvalue
      rw [sign_neg hvalue, sign_neg hneg]
    · have hle : 0 ≤ (p.poly ℝ).leadingCoeff := hlead.symm ▸ Int.cast_nonneg hpos.le
      have hvalue := Polynomial.zero_lt_negOnePow_mul_eval_of_lt_roots_of_leadingCoeff_nonneg
        hroots hle
      rw [Int.cast_negOnePow_natCast] at hvalue
      rw [sign_pos hvalue, sign_pos hpos]
  rw [signAtEnd, Bool.true_and, Int.sign_eq_sign, signIn]
  rcases Nat.even_or_odd p.degree with heven | hodd
  · rw [heven.neg_one_pow, one_mul] at hsign
    rw [hsign, if_neg (by simp [Nat.even_iff.1 heven])]
  · rw [hodd.neg_one_pow, neg_one_mul, Left.sign_neg] at hsign
    rw [if_pos (by simp [Nat.odd_iff.1 hodd]), ← hsign]
    simp

theorem eventually_signIn_atTop (hp : p.leading ≠ 0) :
    ∀ᶠ x in atTop, p.signIn x = signAtEnd false p := by
  have hroots : ∀ᶠ x in atTop, ∀ r ∈ p.realRoots, r < x :=
    (eventually_all_finset _).2 fun r _ => eventually_gt_atTop r
  filter_upwards [hroots] with x hx using signIn_of_roots_lt hp hx

theorem eventually_signIn_atBot (hp : p.leading ≠ 0) :
    ∀ᶠ x in atBot, p.signIn x = signAtEnd true p := by
  have hroots : ∀ᶠ x in atBot, ∀ r ∈ p.realRoots, x < r :=
    (eventually_all_finset _).2 fun r _ => eventually_lt_atBot r
  filter_upwards [hroots] with x hx using signIn_of_lt_roots hp hx

end Poly

end Credal
