import Credal.Polynomial.Locate
import Credal.Proofs.Polynomial.Sturm
import Mathlib.Analysis.Polynomial.CauchyBound
import Mathlib.Data.Set.Card
import Mathlib.RingTheory.Localization.Rat
import Mathlib.RingTheory.Polynomial.RationalRoot

/-!
# Locating a real root

The number of roots of a polynomial is found from its squarefree polynomial. The root with a given
number, times the leading coefficient and rounded up, is found by bisection between the bounds of
all roots; so the root is found if it is rational, since its denominator divides the leading
coefficient.

* `Poly.IsNthRoot`: the `k`-th distinct real root in ascending order;
* `rootCount_eq`, `exists_isNthRoot`, `IsNthRoot.unique`: how many there are;
* `abs_lt_rootBound`: the bound of the roots;
* `leastHolding_spec`, `leastAbove_eq_ceil`: bisection;
* `rationalRoot?_eq_some_iff`: **the rational roots**.
-/

namespace Credal

namespace Poly

/-! ## 1. Numbered roots -/

/-- The number is the `k`-th of the distinct real roots in ascending order: it is a root, and
    `k - 1` of them are below it. -/
structure IsNthRoot (p : Poly) (k : Nat) (r : ℝ) : Prop where
  root : p.valueIn r = 0
  below : {x : ℝ | p.valueIn x = 0 ∧ x < r}.ncard + 1 = k

variable {p f : Poly} {k : Nat} {r x : ℝ}

theorem hasSimpleRoots_squarefree (hp : p.trim ≠ []) : p.squarefree.HasSimpleRoots where
  leading_ne_zero := (leading_squarefree hp).ne'
  derivative_ne_zero x hx := by
    rw [← eval_poly] at hx ⊢
    exact derivative_squarefree_ne_zero hp hx

theorem valueIn_squarefree_eq_zero_iff (hp : p.trim ≠ []) (x : ℝ) :
    p.squarefree.valueIn x = 0 ↔ p.valueIn x = 0 := by
  rw [← eval_poly, ← eval_poly]
  exact squarefree_isRoot_iff hp x

/-- **The roots are numbered alike** in the squarefree polynomial. -/
theorem isNthRoot_squarefree_iff (hp : p.trim ≠ []) :
    p.squarefree.IsNthRoot k r ↔ p.IsNthRoot k r := by
  have hset : {x : ℝ | p.squarefree.valueIn x = 0 ∧ x < r} = {x : ℝ | p.valueIn x = 0 ∧ x < r} :=
    Set.ext fun x => and_congr_left' (valueIn_squarefree_eq_zero_iff hp x)
  constructor
  · rintro ⟨hroot, hbelow⟩
    exact ⟨(valueIn_squarefree_eq_zero_iff hp r).1 hroot, hset ▸ hbelow⟩
  · rintro ⟨hroot, hbelow⟩
    exact ⟨(valueIn_squarefree_eq_zero_iff hp r).2 hroot, hset.symm ▸ hbelow⟩

theorem coe_realRoots (hf : f.leading ≠ 0) : {x : ℝ | f.valueIn x = 0} = f.realRoots :=
  Set.ext fun _ => (mem_realRoots hf).symm

/-- **The number of distinct real roots.** -/
theorem rootCount_eq (hp : p.trim ≠ []) : p.rootCount = {x : ℝ | p.valueIn x = 0}.ncard := by
  have hset : {x : ℝ | p.valueIn x = 0} = p.squarefree.realRoots := by
    rw [← coe_realRoots (leading_squarefree hp).ne']
    exact Set.ext fun x => (valueIn_squarefree_eq_zero_iff hp x).symm
  rw [rootCount, chainRootCount_eq (hasSimpleRoots_squarefree hp), hset, Set.ncard_coe_finset]

theorem isNthRoot_iff (hf : f.leading ≠ 0) : f.IsNthRoot k r ↔
    r ∈ f.realRoots ∧ (f.realRoots.filter (· < r)).card + 1 = k := by
  have hset : {x : ℝ | f.valueIn x = 0 ∧ x < r} = f.realRoots.filter (· < r) := by
    ext x
    rw [Finset.coe_filter, Set.mem_ofPred_eq, Set.mem_ofPred_eq, mem_realRoots hf]
  have hcard : {x : ℝ | f.valueIn x = 0 ∧ x < r}.ncard = (f.realRoots.filter (· < r)).card := by
    rw [hset, Set.ncard_coe_finset]
  constructor
  · rintro ⟨hroot, hbelow⟩
    exact ⟨(mem_realRoots hf).2 hroot, hcard ▸ hbelow⟩
  · rintro ⟨hroot, hbelow⟩
    exact ⟨(mem_realRoots hf).1 hroot, hcard.symm ▸ hbelow⟩

theorem IsNthRoot.rootsAtMost_eq (hf : f.leading ≠ 0) (h : f.IsNthRoot k r) :
    f.rootsAtMost r = k := by
  obtain ⟨hroot, rfl⟩ := (isNthRoot_iff hf).1 h
  have hset : f.realRoots.filter (· ≤ r) = insert r (f.realRoots.filter (· < r)) := by
    ext y
    simp only [Finset.mem_filter, Finset.mem_insert, le_iff_eq_or_lt]
    constructor
    · rintro ⟨hy, rfl | hlt⟩
      · exact .inl rfl
      · exact .inr ⟨hy, hlt⟩
    · rintro (rfl | ⟨hy, hlt⟩)
      · exact ⟨hroot, .inl rfl⟩
      · exact ⟨hy, .inr hlt⟩
  rw [rootsAtMost, hset, Finset.card_insert_of_notMem (by simp)]

/-- **The number of roots that are at most a number** tells which roots are. -/
theorem IsNthRoot.le_rootsAtMost_iff (hf : f.leading ≠ 0) (h : f.IsNthRoot k r) :
    k ≤ f.rootsAtMost x ↔ r ≤ x := by
  constructor
  · obtain ⟨-, rfl⟩ := (isNthRoot_iff hf).1 h
    intro hk
    by_contra hlt
    have hsubset : f.realRoots.filter (· ≤ x) ⊆ f.realRoots.filter (· < r) :=
      Finset.monotone_filter_right _ fun y _ hy => lt_of_le_of_lt hy (not_le.1 hlt)
    exact absurd (Finset.card_le_card hsubset) (not_le.2 hk)
  · intro hle
    rw [← h.rootsAtMost_eq hf]
    exact Finset.card_le_card (Finset.monotone_filter_right _ fun y _ hy => hy.trans hle)

theorem IsNthRoot.unique (hf : f.leading ≠ 0) {s : ℝ} (hr : f.IsNthRoot k r)
    (hs : f.IsNthRoot k s) : r = s := by
  refine le_antisymm ?_ ?_
  · exact (hr.le_rootsAtMost_iff hf).1 (hs.rootsAtMost_eq hf).ge
  · exact (hs.le_rootsAtMost_iff hf).1 (hr.rootsAtMost_eq hf).ge

/-- **There is a root for every number** up to the number of roots. -/
theorem exists_isNthRoot (hf : f.leading ≠ 0) (hpos : 1 ≤ k) (hk : k ≤ f.realRoots.card) :
    ∃ r, f.IsNthRoot k r := by
  -- The number of roots below a root tells roots apart, and it is below the number of all roots.
  have hmaps : ∀ r ∈ f.realRoots,
      (f.realRoots.filter (· < r)).card ∈ Finset.range f.realRoots.card := by
    intro r hr
    refine Finset.mem_range.2 (Finset.card_lt_card (Finset.filter_ssubset.2 ⟨r, hr, ?_⟩))
    exact lt_irrefl r
  have hinjective : ∀ r ∈ f.realRoots, ∀ s ∈ f.realRoots,
      (f.realRoots.filter (· < r)).card = (f.realRoots.filter (· < s)).card → r = s := by
    intro r hr s hs heq
    exact ((isNthRoot_iff hf).2 ⟨hr, rfl⟩).unique hf ((isNthRoot_iff hf).2 ⟨hs, by rw [heq]⟩)
  obtain ⟨r, hr, hbelow⟩ := Finset.surj_on_of_inj_on_of_card_le (fun r _ => _) hmaps
    (fun r s hr hs => hinjective r hr s hs) (Finset.card_range _).le (k - 1)
    (Finset.mem_range.2 (by omega))
  exact ⟨r, (isNthRoot_iff hf).2 ⟨hr, by omega⟩⟩

/-! ## 2. The bound of the roots -/

theorem rootBound_pos (p : Poly) : 0 < p.rootBound := Nat.succ_pos _

theorem natAbs_lt_rootBound {a : Int} (h : a ∈ p) : a.natAbs < p.rootBound := by
  have hfold : ∀ m : Nat, m ≤ p.foldl (fun m c => max m c.natAbs) m ∧
      (a ∈ p → a.natAbs ≤ p.foldl (fun m c => max m c.natAbs) m) := by
    clear h
    induction p with
    | nil => exact fun m => ⟨le_rfl, fun h => absurd h List.not_mem_nil⟩
    | cons c p ih =>
      intro m
      obtain ⟨hle, hmem⟩ := ih (max m c.natAbs)
      refine ⟨(le_max_left _ _).trans hle, fun h => ?_⟩
      rcases List.mem_cons.1 h with rfl | h
      · exact (le_max_right _ _).trans hle
      · exact hmem h
  exact Nat.lt_succ_of_le ((hfold 0).2 h)

theorem natAbs_coefficient_lt_rootBound (p : Poly) (i : Nat) :
    (p.coefficient i).natAbs < p.rootBound := by
  rw [coefficient, List.getD_eq_getElem?_getD]
  rcases h : p.reverse[i]? with _ | a
  · exact p.rootBound_pos
  · exact natAbs_lt_rootBound (List.mem_reverse.1 (List.mem_of_getElem? h))

/-- **The bound of the roots** is that of Cauchy, for a leading coefficient of at least one. -/
theorem abs_lt_rootBound (hf : f.leading ≠ 0) (hr : f.valueIn r = 0) : |r| < f.rootBound := by
  have hroot : (f.poly ℝ).IsRoot r := (eval_poly f r).trans hr
  have hcauchy := hroot.norm_lt_cauchyBound (poly_ne_zero hf)
  have hlead : (1 : NNReal) ≤ ‖(f.poly ℝ).leadingCoeff‖₊ := by
    rw [leadingCoeff_poly hf, ← NNReal.coe_le_coe, coe_nnnorm, NNReal.coe_one, Real.norm_eq_abs]
    exact_mod_cast Int.one_le_abs hf
  have hsup : Finset.sup (Finset.range (f.poly ℝ).natDegree) (fun i => ‖(f.poly ℝ).coeff i‖₊) ≤
      ((f.rootBound - 1 : Nat) : NNReal) := by
    refine Finset.sup_le fun i _ => ?_
    have hle := Nat.le_sub_one_of_lt (f.natAbs_coefficient_lt_rootBound i)
    rw [coeff_poly, ← NNReal.coe_le_coe, coe_nnnorm, Real.norm_eq_abs, NNReal.coe_natCast,
      ← Int.cast_abs, Int.abs_eq_natAbs]
    exact_mod_cast hle
  have hbound : (f.poly ℝ).cauchyBound ≤ f.rootBound := by
    have hsucc : (f.rootBound : NNReal) = ((f.rootBound - 1 : Nat) : NNReal) + 1 := by
      exact_mod_cast (Nat.sub_add_cancel f.rootBound_pos).symm
    rw [Polynomial.cauchyBound, hsucc]
    gcongr
    exact (div_le_self zero_le hlead).trans hsup
  have hlt := hcauchy.trans_le hbound
  rw [← NNReal.coe_lt_coe, coe_nnnorm, Real.norm_eq_abs, NNReal.coe_natCast] at hlt
  exact hlt

end Poly

/-! ## 3. Bisection -/

/-- **Bisection** finds a place where a property starts to hold. -/
theorem leastHolding_spec {holds : Int → Bool} {fuel : Nat} {lo hi : Int}
    (hlt : lo < hi) (hfuel : hi - lo ≤ 2 ^ fuel) (hlo : holds lo = false) (hhi : holds hi = true) :
    holds (leastHolding holds fuel lo hi) = true ∧
      holds (leastHolding holds fuel lo hi - 1) = false := by
  fun_induction leastHolding holds fuel lo hi with
  | case1 lo hi =>
    have hnext : hi - 1 = lo := by omega
    exact ⟨hhi, by rw [hnext]; exact hlo⟩
  | case2 fuel lo hi hle =>
    have hnext : hi - 1 = lo := by omega
    exact ⟨hhi, by rw [hnext]; exact hlo⟩
  | case3 fuel lo hi hle mid hmid ih =>
    have hhalf : mid = (lo + hi) / 2 := rfl
    exact ih (by omega) (by rw [pow_succ] at hfuel; omega) hlo hmid
  | case4 fuel lo hi hle mid hmid ih =>
    have hhalf : mid = (lo + hi) / 2 := rfl
    exact ih (by omega) (by rw [pow_succ] at hfuel; omega) (Bool.eq_false_iff.2 hmid) hhi

namespace Poly

variable {f : Poly} {k : Nat} {r : ℝ}

/-- **The bisection finds the root**, times the denominator and rounded up. -/
theorem leastAbove_eq_ceil (hf : f.HasSimpleRoots) (hr : f.IsNthRoot k r) {den : Nat}
    (hden : 0 < den) : f.leastAbove f.chain k den = ⌈r * den⌉ := by
  have hpos : (0 : ℝ) < den := Nat.cast_pos.2 hden
  have hholds : ∀ m : Int, k ≤ chainRootsUpTo f.chain m den ↔ r * den ≤ m := by
    intro m
    rw [chainRootsUpTo_eq hf m (Int.natCast_pos.2 hden), hr.le_rootsAtMost_iff hf.leading_ne_zero,
      Int.cast_natCast, le_div_iff₀ hpos]
  obtain ⟨hlower, hupper⟩ := abs_lt.1 (abs_lt_rootBound hf.leading_ne_zero hr.root)
  have hbound : 0 < (f.rootBound : Int) * den :=
    mul_pos (Int.natCast_pos.2 f.rootBound_pos) (Int.natCast_pos.2 hden)
  have hbelow : ¬ k ≤ chainRootsUpTo f.chain (-((f.rootBound : Int) * den)) den := by
    rw [hholds]
    push_cast
    nlinarith
  have habove : k ≤ chainRootsUpTo f.chain ((f.rootBound : Int) * den) den := by
    rw [hholds]
    push_cast
    exact mul_le_mul_of_nonneg_right hupper.le hpos.le
  have hfuel : (f.rootBound : Int) * den - -((f.rootBound : Int) * den) ≤
      2 ^ (2 * ((f.rootBound : Int) * den).natAbs).log2.succ := by
    have hlog := (2 * ((f.rootBound : Int) * den).natAbs).lt_log2_self
    have hcast : ((2 * ((f.rootBound : Int) * den).natAbs : Nat) : Int) <
        2 ^ (2 * ((f.rootBound : Int) * den).natAbs).log2.succ := by exact_mod_cast hlog
    omega
  obtain ⟨hat, hbefore⟩ := @leastHolding_spec (fun m => k ≤ chainRootsUpTo f.chain m den) _ _ _
    (by omega) hfuel (decide_eq_false hbelow) (decide_eq_true habove)
  refine (Int.ceil_eq_iff.2 ⟨?_, ?_⟩).symm
  · have hnot := (hholds _).not.1 (of_decide_eq_false hbefore)
    push_cast at hnot
    exact not_le.1 hnot
  · exact (hholds _).1 (of_decide_eq_true hat)

/-! ## 4. Rational roots -/

/-- The denominator of a rational root divides the leading coefficient. -/
theorem den_dvd_leading (hf : f.leading ≠ 0) {q : Rat} (hq : f.valueIn (q : ℝ) = 0) :
    q.den ∣ f.leading.natAbs := by
  have heval : (((f.poly ℚ).eval q : ℚ) : ℝ) = 0 := by
    rw [← hq, ← eval_poly, ← map_poly (Rat.castHom ℝ)]
    exact (Polynomial.eval_map_apply (Rat.castHom ℝ) q).symm
  have hroot : Polynomial.aeval q (f.poly ℤ) = 0 := by
    rw [← Polynomial.eval_map_algebraMap]
    exact (congrArg (Polynomial.eval q) (map_poly (algebraMap ℤ ℚ) f)).trans
      (Rat.cast_eq_zero.1 heval)
  have hdvd := den_dvd_of_is_root hroot
  rw [leadingCoeff_poly hf, Int.cast_id] at hdvd
  rw [← Rat.isFractionRingDen q]
  exact Int.natAbs_dvd_natAbs.2 hdvd

theorem isNthRoot_rootsAtMost (hf : f.leading ≠ 0) (hr : f.valueIn r = 0) :
    f.IsNthRoot (f.rootsAtMost r) r := by
  have hroot : f.IsNthRoot ((f.realRoots.filter (· < r)).card + 1) r :=
    (isNthRoot_iff hf).2 ⟨(mem_realRoots hf).2 hr, rfl⟩
  rw [hroot.rootsAtMost_eq hf]
  exact hroot

/-- The rational number of a numerator is the root if it is a root and as many roots are at most
    it. -/
theorem isNthRoot_quotient_iff (hf : f.HasSimpleRoots) (hr : f.IsNthRoot k r) (m : Int) {den : Nat}
    (hden : 0 < den) :
    (chainRootsUpTo f.chain m den = k ∧ f.signAt m den = 0) ↔ ((mkRat m den : ℚ) : ℝ) = r := by
  have hquotient : ((mkRat m den : ℚ) : ℝ) = m / (den : Int) := by
    rw [Rat.mkRat_eq_div]
    push_cast
    rfl
  rw [chainRootsUpTo_eq hf m (Int.natCast_pos.2 hden), signAt_eq f m (Int.natCast_pos.2 hden),
    signIn_eq_zero_iff, ← hquotient]
  constructor
  · rintro ⟨hcount, hroot⟩
    have hnth := isNthRoot_rootsAtMost hf.leading_ne_zero hroot
    rw [hcount] at hnth
    exact hnth.unique hf.leading_ne_zero hr
  · intro heq
    rw [heq]
    exact ⟨hr.rootsAtMost_eq hf.leading_ne_zero, hr.root⟩

/-- **A rational root is found**, and what is found is the root. -/
theorem rationalRoot?_eq_some_iff (hf : f.HasSimpleRoots) (hr : f.IsNthRoot k r) {q : Rat} :
    f.rationalRoot? f.chain k = some q ↔ (q : ℝ) = r := by
  have hden : 0 < f.leading.natAbs := Int.natAbs_pos.2 hf.leading_ne_zero
  rw [rationalRoot?]
  simp only [leastAbove_eq_ceil hf hr hden, isNthRoot_quotient_iff hf hr _ hden]
  constructor
  · intro h
    split at h
    · rename_i hroot
      rw [← Option.some.inj h]
      exact hroot
    · cases h
  · intro hq
    obtain ⟨n, hn⟩ := den_dvd_leading hf.leading_ne_zero (hq.symm ▸ hr.root)
    -- The root times the leading coefficient is an integer, so it is not rounded.
    have hproduct : r * f.leading.natAbs = ((q.num * n : Int) : ℝ) := by
      have hnum : (q : ℝ) * q.den = q.num := by exact_mod_cast q.mul_den_eq_num
      rw [← hq, hn, Nat.cast_mul, ← mul_assoc, hnum]
      push_cast
      rfl
    have hn0 : n ≠ 0 := right_ne_zero_of_mul (hn ▸ hden.ne')
    have hquotient : mkRat (q.num * n) f.leading.natAbs = q := by
      rw [hn, Rat.mkRat_mul_right hn0, Rat.mkRat_self]
    rw [hproduct, Int.ceil_intCast, hquotient, if_pos hq]

end Poly

end Credal
