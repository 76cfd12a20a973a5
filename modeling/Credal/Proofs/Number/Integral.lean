import Credal.Proofs.Number.Doubles

/-!
# Integral doubles and their shortest decimals

The shortest decimal of a double lies in the interval of reals that read back as it, so it differs
from the exact value by half a place at most. For an integral double the two are integers; they are
the same as long as no other multiple of ten lies in the interval, and the first place where one
does is at `2 ^ 54 + 8`.

* `Shortest.Interval.holds_iff`: the interval as a comparison of quotients;
* `Shortest.readsBack_ofParts`: the shortest decimal is half a place away at most;
* `Shortest.onGrid?_of_multiple`: a value that stands on a grid is what the grid offers;
* `Shortest.ofParts_eq_natCast`: the integers below `2 ^ 54 + 8`;
* `Double.exists_shortest?_near`: both facts for integral doubles.
-/

namespace Credal.Number

namespace Shortest

variable {p : Double.Parts}

/-! ## 1. Half a place -/

/-- The interval with its ends, or without them. -/
theorem Interval.holds_iff {i : Interval} {n d : Nat} (hi : 0 < i.den) (hd : 0 < d) :
    i.holds n d = true ↔
      if i.closed then (i.low : ℚ) / i.den ≤ n / d ∧ (n : ℚ) / d ≤ i.high / i.den
      else (i.low : ℚ) / i.den < n / d ∧ (n : ℚ) / d < i.high / i.den := by
  have hi' : (0 : ℚ) < i.den := Nat.cast_pos.2 hi
  have hd' : (0 : ℚ) < d := Nat.cast_pos.2 hd
  unfold Interval.holds
  by_cases hc : i.closed = true
  · simp only [hc, if_true, Bool.and_eq_true, decide_eq_true_eq]
    rw [div_le_div_iff₀ hi' hd', div_le_div_iff₀ hd' hi']
    exact_mod_cast Iff.rfl
  · simp only [hc, if_false, Bool.and_eq_true, decide_eq_true_eq, Bool.false_eq_true]
    rw [div_lt_div_iff₀ hi' hd', div_lt_div_iff₀ hd' hi']
    exact_mod_cast Iff.rfl

/-- The exact value of the parts, without its sign. -/
def exactValue (p : Double.Parts) : ℚ := p.significand * 2 ^ p.exponent

theorem exactValue_eq (p : Double.Parts) : exactValue p = 4 * p.significand * quarter p := by
  rw [exactValue, quarter, zpow_sub₀ (by norm_num)]
  ring

/-- A number is half a place away from the exact value at most, and less than that if the
    significand is odd; such a number reads back. -/
def ReadsBack (p : Double.Parts) (r : ℚ) : Prop :=
  |r - exactValue p| ≤ 2 * quarter p ∧
    (p.significand % 2 = 1 → |r - exactValue p| < 2 * quarter p)

/-- A number lies in an interval. -/
def Interval.Has (i : Interval) (r : ℚ) : Prop :=
  if i.closed then (i.low : ℚ) / i.den ≤ r ∧ r ≤ i.high / i.den
  else (i.low : ℚ) / i.den < r ∧ r < i.high / i.den

theorem closed_eq (p : Double.Parts) : (interval p).closed = decide (p.significand % 2 = 0) := rfl

/-- **What a grid offers lies in the interval.** -/
theorem has_of_onGrid? {grid : Int} {d : Decimal} (hd : onGrid? (interval p) grid = some d) :
    (interval p).Has d.toRat := by
  obtain ⟨he, hin⟩ := onGrid?_eq_some hd
  have hratio : d.toRat = ((scaleQuotient d.digits 1 grid).1 : ℚ) /
      (scaleQuotient d.digits 1 grid).2 := by
    rw [ratio_multiple, Decimal.toRat_eq, he]
  rw [hratio]
  exact (Interval.holds_iff (interval_den_pos p) (scaleQuotient_pos Nat.one_pos _)).1 hin

/-- What a grid offers reads back. -/
theorem readsBack_of_onGrid? {grid : Int} {d : Decimal} (h : p.significand ≠ 0)
    (hd : onGrid? (interval p) grid = some d) : ReadsBack p d.toRat := by
  have hholds := has_of_onGrid? hd
  have hw := quarter_pos p
  -- the lower end is nowhere more than half a place below the value
  have hlow : (4 * p.significand - 2) * quarter p ≤ ((interval p).low : ℚ) / (interval p).den := by
    rcases interval_low h with e | ⟨-, e⟩
    · exact e.ge
    · rw [e]
      exact mul_le_mul_of_nonneg_right (by linarith) hw.le
  rw [Interval.Has, interval_high, closed_eq] at hholds
  rw [ReadsBack, exactValue_eq, abs_le, abs_lt]
  split at hholds
  · rename_i hc
    refine ⟨⟨by linarith [hholds.1], by linarith [hholds.2]⟩, fun hodd => ?_⟩
    have heven := of_decide_eq_true hc
    omega
  · exact ⟨⟨by linarith [hholds.1], by linarith [hholds.2]⟩,
      fun _ => ⟨by linarith [hholds.1], by linarith [hholds.2]⟩⟩

/-- The shortest decimal is what some grid offers, the first of seventeen that offers any. -/
theorem exists_candidate (h : p.significand ≠ 0) (hp : Regular p) :
    ∃ d, onGrid? (interval p) d.exponent = some d ∧ (ofParts p).toRat = d.toRat ∧
      ∀ n : Nat, exactValue p = n → 0 ≤ d.exponent := by
  obtain ⟨d, rest, hc⟩ := List.exists_cons_of_ne_nil (candidates_ne_nil h hp)
  have hmem : d ∈ candidates p := hc ▸ List.mem_cons_self
  obtain ⟨k, -, hk⟩ := List.mem_filterMap.1 hmem
  refine ⟨d, ?_, ?_, fun n hn => ?_⟩
  · rw [(onGrid?_eq_some hk).1]
    exact hk
  · rw [ofParts_eq, hc, List.head?_cons, Option.getD_some, Decimal.strip_toRat]
  · have hexp := candidates_head_exponent h hn
    rw [hc] at hexp
    exact hexp

/-- **The shortest decimal reads back.** -/
theorem readsBack_ofParts (h : p.significand ≠ 0) (hp : Regular p) :
    ReadsBack p (ofParts p).toRat := by
  obtain ⟨d, hd, hvalue, -⟩ := exists_candidate h hp
  rw [hvalue]
  exact readsBack_of_onGrid? h hd

/-! ## 2. Values on a grid -/

theorem halfEven_of_dvd {k den : Nat} (h : 0 < den) : halfEven (k * den) den = k := by
  have hdiv : k * den / den = k := Nat.mul_div_cancel k h
  have hmod : k * den % den = 0 := Nat.mul_mod_left k den
  rw [halfEven]
  simp only [hdiv, hmod, Nat.mul_zero, if_pos h]

/-- **A value that stands on a grid is what the grid offers.** -/
theorem onGrid?_of_multiple {grid : Int} {d : Decimal} {k : Nat} (h : p.significand ≠ 0)
    (hk : exactValue p = k * 10 ^ grid) (hd : onGrid? (interval p) grid = some d) :
    d.toRat = exactValue p := by
  have hden := interval_den_pos p
  have hvalue : ((interval p).value : ℚ) / (interval p).den = k * 10 ^ grid := by
    rw [interval_value, ← exactValue_eq, hk]
  have hpos := @scaleQuotient_pos (interval p).value _ hden (-grid)
  have hscaled : (scaleQuotient (interval p).value (interval p).den (-grid)).1 =
      k * (scaleQuotient (interval p).value (interval p).den (-grid)).2 := by
    have hpos' : (0 : ℚ) < (scaleQuotient (interval p).value (interval p).den (-grid)).2 :=
      Nat.cast_pos.2 hpos
    have hratio := scaleQuotient_ratio (interval p).value (interval p).den (-grid)
    rw [hvalue, zpow_neg, mul_assoc, mul_inv_cancel₀ (zpow_ne_zero _ (by norm_num)), mul_one,
      div_eq_iff hpos'.ne'] at hratio
    exact_mod_cast hratio
  have hbelow : below (interval p) grid = k := by
    rw [below, hscaled]
    exact Nat.mul_div_cancel k hpos
  have hnearest : halfEven (scaleQuotient (interval p).value (interval p).den (-grid)).1
      (scaleQuotient (interval p).value (interval p).den (-grid)).2 = k := by
    rw [hscaled]
    exact halfEven_of_dvd hpos
  have hinside : inside (interval p) grid k = true := by
    refine inside_of_between hden ?_ ?_
    · rw [← hvalue]
      exact interval_low_lt h
    · rw [← hvalue]
      exact interval_lt_high
  have hdigits : d = ⟨k, grid⟩ := by
    rw [← hbelow] at hinside
    unfold onGrid? at hd
    simp only at hd
    split at hd
    · rw [hnearest] at hd
      exact (Option.some.inj hd).symm
    · rw [← Option.some.inj hd, ← hbelow]
      rfl
    · rename_i hlower _
      exact absurd (hinside.symm.trans hlower) (by decide)
    · cases hd
  rw [hdigits, Decimal.toRat_eq, hk]

/-! ## 3. Integers -/

/-- The significand of a double has a leading one, unless the exponent is the least. -/
def IsNormal (p : Double.Parts) : Prop := p.exponent = -1074 ∨ 2 ^ 52 ≤ p.significand

/-- An integer that stands for another multiple of ten is not below `2 ^ 54 + 8`. -/
theorem eq_of_readsBack {n m : Nat} (hp : IsNormal p) (hn : exactValue p = n)
    (hlt : n < 2 ^ 54 + 8) (hm : 10 ∣ m) (hback : ReadsBack p m) : m = n := by
  obtain ⟨hle, hodd⟩ := hback
  rw [hn] at hle hodd
  have hhalf : 2 * quarter p = 2 ^ (p.exponent - 1) := by
    rw [quarter, ← zpow_one_add₀ (by norm_num)]
    congr 1
    ring
  rw [hhalf] at hle hodd
  by_cases h0 : p.exponent ≤ 0
  · -- half a place is less than one
    have hsmall : (2 : ℚ) ^ (p.exponent - 1) < 1 :=
      zpow_lt_one_of_neg₀ (by norm_num) (by omega)
    have habs : |(m : ℤ) - n| < 1 := by
      have hq : |((m : ℤ) : ℚ) - ((n : ℤ) : ℚ)| < 1 := by
        push_cast
        exact hle.trans_lt hsmall
      exact_mod_cast hq
    rw [abs_lt] at habs
    omega
  · obtain ⟨k, hk⟩ := Int.eq_ofNat_of_zero_le (show 0 ≤ p.exponent - 1 by omega)
    have hexp : p.exponent = (k : Int) + 1 := by omega
    have hplace : p.significand * (2 ^ k * 2) = n := by
      have hq : (p.significand : ℚ) * (2 ^ k * 2) = n := by
        rw [← hn, exactValue, hexp, zpow_add_one₀ (by norm_num), zpow_natCast]
      exact_mod_cast hq
    rw [hexp, add_sub_cancel_right, zpow_natCast] at hle hodd
    have habs : |(m : ℤ) - n| ≤ 2 ^ k := by exact_mod_cast hle
    have hodd' : p.significand % 2 = 1 → |(m : ℤ) - n| < 2 ^ k := by
      intro h
      exact_mod_cast hodd h
    rw [abs_le] at habs
    rw [abs_lt] at hodd'
    rcases k with - | - | k
    · -- half a place is one, and both are even
      omega
    · have hsig : 2 ^ 52 ≤ p.significand := hp.resolve_left (by omega)
      omega
    · have hsig : 2 ^ 52 ≤ p.significand := hp.resolve_left (by omega)
      have hbig : 2 ^ 52 * (2 ^ 2 * 2) ≤ n := by
        rw [← hplace]
        refine Nat.mul_le_mul hsig (Nat.mul_le_mul_right 2 ?_)
        exact Nat.pow_le_pow_right (by decide) (by omega)
      omega

/-- **An integer below `2 ^ 54 + 8` is its own shortest decimal.** -/
theorem ofParts_eq_natCast {n : Nat} (h : p.significand ≠ 0) (hp : Regular p) (hnormal : IsNormal p)
    (hn : exactValue p = n) (hlt : n < 2 ^ 54 + 8) : (ofParts p).toRat = n := by
  obtain ⟨d, hd, hvalue, hexp⟩ := exists_candidate h hp
  rw [hvalue]
  obtain ⟨k, hk⟩ := Int.eq_ofNat_of_zero_le (hexp n hn)
  cases k with
  | zero =>
    rw [hk] at hd
    rw [onGrid?_of_multiple (k := n) h (by simp [hn]) hd, hn]
  | succ k =>
    -- on a coarser grid a decimal is a multiple of ten
    have hten : d.toRat = ((d.digits * 10 ^ k * 10 : Nat) : ℚ) := by
      rw [Decimal.toRat_eq, hk]
      rw [zpow_natCast, pow_succ]
      push_cast
      ring
    have hback := readsBack_of_onGrid? h hd
    rw [hten] at hback ⊢
    rw [eq_of_readsBack hnormal hn hlt (Dvd.intro_left _ rfl) hback]

/-- Half a place of an integer that is not below that is small against it. -/
theorem half_place_le {n : Nat} (hp : Regular p) (hnormal : IsNormal p) (hn : exactValue p = n)
    (hle : 2 ^ 54 + 8 ≤ n) : 2 * quarter p ≤ n / 2 ^ 53 := by
  have hw := quarter_pos p
  have hsig : 2 ^ 52 ≤ p.significand := by
    rcases hnormal with he | hsig
    · -- with the least exponent the value is below one
      have hpow : (2 : ℚ) ^ p.exponent ≤ 1 := zpow_le_one_of_nonpos₀ (by norm_num) (by omega)
      have hlt : exactValue p < 2 ^ 53 := by
        calc exactValue p ≤ p.significand * 1 :=
              mul_le_mul_of_nonneg_left hpow (Nat.cast_nonneg _)
          _ = p.significand := mul_one _
          _ < 2 ^ 53 := by exact_mod_cast hp.significand_lt
      rw [hn] at hlt
      have hlt' : n < 2 ^ 53 := by exact_mod_cast hlt
      omega
    · exact hsig
  have hsig' : (2 : ℚ) ^ 52 ≤ p.significand := by exact_mod_cast hsig
  rw [le_div_iff₀ (by norm_num), ← hn, exactValue_eq]
  calc 2 * quarter p * 2 ^ 53 = 4 * 2 ^ 52 * quarter p := by ring
    _ ≤ 4 * p.significand * quarter p := by gcongr

end Shortest

namespace Double

open Shortest

theorem isNormal_of_parts? {x : Float} {p : Parts} (h : parts? x = some p) : IsNormal p := by
  have e52 : twoTo 52 = 2 ^ 52 := rfl
  unfold parts? at h
  simp only [e52] at h
  split at h
  · cases h
  · split at h
    · cases h
      exact Or.inl rfl
    · cases h
      exact Or.inr (Nat.le_add_left _ _)

/-- **The shortest decimal of an integral double** that is not negative differs from its exact value
    by the `2 ^ 53`-th part of it at most, and not at all below `2 ^ 54 + 8`. -/
theorem exists_shortest?_near {x : Float} {n : Nat} (hi : integer? x = some n) (hx : ¬ x < 0) :
    ∃ q, shortest? x = some q ∧ |(n : ℚ) - q| ≤ n / 2 ^ 53 ∧ (n < 2 ^ 54 + 8 → q = n) := by
  obtain ⟨p, hp⟩ := exists_parts?_of_integer? hi
  have hv := integer?_value hp hi
  rw [signed_eq] at hv
  by_cases h0 : p.significand = 0
  · have hn : (n : ℚ) = 0 := by
      rw [h0] at hv
      simpa using hv
    refine ⟨0, ?_, by simp [hn], fun _ => hn.symm⟩
    rw [shortest?_eq hp, magnitude, if_pos h0, neg_zero, ite_self]
  · have hneg := negative_eq_false hp hx h0
    rw [hneg, if_neg Bool.false_ne_true] at hv
    have hn : exactValue p = n := by
      rw [exactValue, ← hv, Int.cast_natCast]
    have hregular := regular_of_parts? hp
    have hnormal := isNormal_of_parts? hp
    refine ⟨(ofParts p).toRat, ?_, ?_, ?_⟩
    · rw [shortest?_eq hp, hneg, if_neg Bool.false_ne_true, magnitude, if_neg h0]
    · by_cases hlt : n < 2 ^ 54 + 8
      · rw [ofParts_eq_natCast h0 hregular hnormal hn hlt, sub_self, abs_zero]
        positivity
      · have hback := (readsBack_ofParts h0 hregular).1
        rw [hn, abs_sub_comm] at hback
        exact hback.trans (half_place_le hregular hnormal hn (Nat.le_of_not_lt hlt))
    · exact ofParts_eq_natCast h0 hregular hnormal hn

end Double

end Credal.Number
