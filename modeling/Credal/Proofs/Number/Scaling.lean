import Credal.Number.Rounding
import Mathlib

/-!
# Scaled quotients and leading positions

Quotients of natural numbers are scaled by powers of two and of ten without leaving the natural
numbers. Here they are read as rational numbers.

* `scaledBy_ratio`: the quotient times the power, for any base, so for two (`shiftQuotient_ratio`)
  and for ten (`scaleQuotient_ratio`);
* `two_zpow_binaryExponent_le`: the leading binary position is not above the quotient;
* `ten_zpow_decimalExponent_le`: nor is the leading decimal position. It is found from the binary
  one with five digits of the logarithm, which is close enough up to the two thousandth power of
  two (`ten_zpow_le_two_zpow`);
* `decimalExponent_nonneg`: it is not below the point if the quotient is at least one.
-/

namespace Credal.Number

theorem twoTo_eq (n : Nat) : twoTo n = 2 ^ n := rfl

/-! ## 1. Scaled quotients -/

/-- `num / den` scaled by a power of any base: the one of the two numbers that grows is scaled. -/
def scaledBy (base num den : Nat) (e : Int) : Nat × Nat :=
  if 0 ≤ e then (num * base ^ e.toNat, den) else (num, den * base ^ (-e).toNat)

theorem shiftQuotient_eq (num den : Nat) (e : Int) :
    shiftQuotient num den e = scaledBy 2 num den e := rfl

theorem scaleQuotient_eq (num den : Nat) (e : Int) :
    scaleQuotient num den e = scaledBy 10 num den e := rfl

section Base

variable {base num den : Nat}

theorem scaledBy_pos (hb : 0 < base) (h : 0 < den) (e : Int) :
    0 < (scaledBy base num den e).2 := by
  unfold scaledBy
  split
  · exact h
  · exact Nat.mul_pos h (Nat.pow_pos hb)

theorem scaledBy_ratio (e : Int) :
    ((scaledBy base num den e).1 : ℚ) / (scaledBy base num den e).2 = num / den * base ^ e := by
  unfold scaledBy
  split
  · rename_i h
    obtain ⟨k, rfl⟩ := Int.eq_ofNat_of_zero_le h
    simp only [Int.toNat_natCast, Nat.cast_mul, Nat.cast_pow, zpow_natCast]
    ring
  · rename_i h
    obtain ⟨k, hk⟩ := Int.eq_ofNat_of_zero_le (show 0 ≤ -e by omega)
    have he : e = -(k : Int) := by omega
    subst he
    simp only [neg_neg, Int.toNat_natCast, Nat.cast_mul, Nat.cast_pow, zpow_neg, zpow_natCast]
    rw [div_mul_eq_div_div, div_eq_mul_inv (num / den : ℚ)]

/-- A quotient scaled down by a power of the base is at least one exactly if it reaches that
    power. -/
theorem snd_le_fst_scaledBy (hb : 0 < base) (h : 0 < den) (k : Int) :
    (scaledBy base num den (-k)).2 ≤ (scaledBy base num den (-k)).1 ↔
      (base : ℚ) ^ k ≤ num / den := by
  have hd : (0 : ℚ) < (scaledBy base num den (-k)).2 := Nat.cast_pos.2 (scaledBy_pos hb h _)
  rw [← Nat.cast_le (α := ℚ), ← one_le_div hd, scaledBy_ratio, zpow_neg, ← div_eq_mul_inv,
    one_le_div (zpow_pos (Nat.cast_pos.2 hb) k)]

end Base

theorem shiftQuotient_pos {num den : Nat} (h : 0 < den) (e : Int) :
    0 < (shiftQuotient num den e).2 := by
  rw [shiftQuotient_eq]
  exact scaledBy_pos (by decide) h e

theorem shiftQuotient_ratio (num den : Nat) (e : Int) :
    ((shiftQuotient num den e).1 : ℚ) / (shiftQuotient num den e).2 = num / den * 2 ^ e := by
  rw [shiftQuotient_eq, scaledBy_ratio, Nat.cast_ofNat]

theorem snd_le_fst_shiftQuotient {num den : Nat} (h : 0 < den) (k : Int) :
    (shiftQuotient num den (-k)).2 ≤ (shiftQuotient num den (-k)).1 ↔ (2 : ℚ) ^ k ≤ num / den := by
  rw [shiftQuotient_eq, snd_le_fst_scaledBy (by decide) h, Nat.cast_ofNat]

theorem scaleQuotient_pos {num den : Nat} (h : 0 < den) (e : Int) :
    0 < (scaleQuotient num den e).2 := by
  rw [scaleQuotient_eq]
  exact scaledBy_pos (by decide) h e

theorem scaleQuotient_ratio (num den : Nat) (e : Int) :
    ((scaleQuotient num den e).1 : ℚ) / (scaleQuotient num den e).2 = num / den * 10 ^ e := by
  rw [scaleQuotient_eq, scaledBy_ratio, Nat.cast_ofNat]

theorem snd_le_fst_scaleQuotient {num den : Nat} (h : 0 < den) (k : Int) :
    (scaleQuotient num den (-k)).2 ≤ (scaleQuotient num den (-k)).1 ↔ (10 : ℚ) ^ k ≤ num / den := by
  rw [scaleQuotient_eq, snd_le_fst_scaledBy (by decide) h, Nat.cast_ofNat]

/-! ## 2. Leading positions -/

/-- The leading binary position is not above the quotient. -/
theorem two_zpow_binaryExponent_le {num den : Nat} (hn : 0 < num) (hd : 0 < den) :
    (2 : ℚ) ^ binaryExponent num den ≤ num / den := by
  have hq : (0 : ℚ) < den := Nat.cast_pos.2 hd
  unfold binaryExponent
  simp only [snd_le_fst_shiftQuotient hd]
  split
  · assumption
  · have h1 : (2 : ℚ) ^ num.log2 ≤ num := by exact_mod_cast Nat.log2_self_le hn.ne'
    have h2 : (den : ℚ) ≤ 2 ^ (den.log2 + 1) := by exact_mod_cast Nat.lt_log2_self.le
    rw [le_div_iff₀ hq]
    calc (2 : ℚ) ^ ((num.log2 : Int) - den.log2 - 1) * den
        ≤ 2 ^ ((num.log2 : Int) - den.log2 - 1) * 2 ^ (den.log2 + 1) := by gcongr
      _ = 2 ^ num.log2 := by
          rw [← zpow_natCast, ← zpow_natCast, ← zpow_add₀ (by norm_num)]
          congr 1
          push_cast
          ring
      _ ≤ num := h1

theorem binaryExponent_nonneg {num den : Nat} (hd : 0 < den) (h : den ≤ num) :
    0 ≤ binaryExponent num den := by
  have hlog : den.log2 ≤ num.log2 :=
    (Nat.le_log2 (by omega)).2 ((Nat.log2_self_le hd.ne').trans h)
  unfold binaryExponent
  simp only [snd_le_fst_shiftQuotient hd]
  split
  · omega
  · rename_i hlt
    have : num.log2 ≠ den.log2 := by
      intro e
      apply hlt
      rw [e, sub_self, zpow_zero, one_le_div (Nat.cast_pos.2 hd)]
      exact_mod_cast h
    omega

/-- A comparison of one power of `a` with one of `b` carries over to the powers in its ratio. -/
theorem pow_le_pow_of_ratio {a b p q n m : Nat} (hb : 0 < b) (hp : p ≠ 0) (step : a ^ p ≤ b ^ q)
    (h : q * n ≤ p * m) : a ^ n ≤ b ^ m := by
  refine (Nat.pow_le_pow_iff_left hp).1 ?_
  calc (a ^ n) ^ p = (a ^ p) ^ n := by rw [← Nat.pow_mul, ← Nat.pow_mul, Nat.mul_comm]
    _ ≤ (b ^ q) ^ n := Nat.pow_le_pow_left step n
    _ = b ^ (q * n) := (Nat.pow_mul ..).symm
    _ ≤ b ^ (p * m) := Nat.pow_le_pow_right hb h
    _ = (b ^ m) ^ p := by rw [← Nat.pow_mul, Nat.mul_comm]

/-- `0.30103` is above the decimal logarithm of two, but so little that the first two thousand
    powers of two do not tell. -/
theorem ten_pow_le_ten_mul_two_pow {f n : Nat} (h : 100000 * f ≤ 30103 * n) (hn : n ≤ 2000) :
    10 ^ f ≤ 10 * 2 ^ n := by
  have step : 10 ^ 30103 ≤ 2 ^ 100001 := by decide +kernel
  have key : 10 ^ f ≤ 2 ^ (n + 3) :=
    pow_le_pow_of_ratio (by decide) (by decide) step (by omega)
  rw [Nat.pow_add] at key
  omega

theorem two_pow_le_ten_pow {f n : Nat} (h : 30103 * n ≤ 100000 * f) : 2 ^ n ≤ 10 ^ f := by
  have step : 2 ^ 100000 ≤ 10 ^ 30103 := by decide +kernel
  exact pow_le_pow_of_ratio (by decide) (by decide) step h

/-- One position below the one that the binary exponent points to is not too high. -/
theorem ten_zpow_le_two_zpow {e b : Int} (h : 100000 * e ≤ 30103 * b) (hb : b ≤ 2000) :
    (10 : ℚ) ^ (e - 1) ≤ 2 ^ b := by
  by_cases hneg : e < 0
  · by_cases hpos : 0 ≤ b
    · calc (10 : ℚ) ^ (e - 1) ≤ 1 := zpow_le_one_of_nonpos₀ (by norm_num) (by omega)
        _ ≤ 2 ^ b := one_le_zpow₀ (by norm_num) hpos
    · obtain ⟨f, hf⟩ := Int.eq_ofNat_of_zero_le (show 0 ≤ -e by omega)
      obtain ⟨n, hn⟩ := Int.eq_ofNat_of_zero_le (show 0 ≤ -b by omega)
      have hp : (2 : ℚ) ^ n ≤ 10 ^ f := by
        exact_mod_cast two_pow_le_ten_pow (show 30103 * n ≤ 100000 * f by omega)
      calc (10 : ℚ) ^ (e - 1) ≤ 10 ^ e := zpow_le_zpow_right₀ (by norm_num) (by omega)
        _ = (10 ^ f)⁻¹ := by rw [show e = -(f : Int) by omega, zpow_neg, zpow_natCast]
        _ ≤ (2 ^ n)⁻¹ := inv_anti₀ (by positivity) hp
        _ = 2 ^ b := by rw [show b = -(n : Int) by omega, zpow_neg, zpow_natCast]
  · obtain ⟨f, hf⟩ := Int.eq_ofNat_of_zero_le (show 0 ≤ e by omega)
    obtain ⟨n, hn⟩ := Int.eq_ofNat_of_zero_le (show 0 ≤ b by omega)
    have hp : (10 : ℚ) ^ f ≤ 10 * 2 ^ n := by
      exact_mod_cast ten_pow_le_ten_mul_two_pow (n := n) (f := f) (by omega) (by omega)
    rw [hf, hn, zpow_sub_one₀ (by norm_num), zpow_natCast, zpow_natCast, ← div_eq_mul_inv,
      div_le_iff₀ (by norm_num), mul_comm]
    exact hp

/-- The decimal position is at least zero for quotients from one on. -/
theorem decimalExponent_nonneg {num den : Nat} (hd : 0 < den) (h : den ≤ num) :
    0 ≤ decimalExponent num den := by
  have hb := binaryExponent_nonneg hd h
  have he : 0 ≤ (binaryExponent num den * 30103).fdiv 100000 :=
    Int.fdiv_nonneg (by omega) (by decide)
  have h1 : (10 : ℚ) ^ (0 : Int) ≤ num / den := by
    rw [zpow_zero, one_le_div (Nat.cast_pos.2 hd)]
    exact_mod_cast h
  unfold decimalExponent
  simp only [decide_eq_true_eq, snd_le_fst_scaleQuotient hd]
  generalize (binaryExponent num den * 30103).fdiv 100000 = e at he ⊢
  split
  · show 0 ≤ e + 1
    omega
  · split
    · exact he
    · rename_i hn
      show 0 ≤ e - 1
      have : e ≠ 0 := fun h0 => hn (h0 ▸ h1)
      omega

/-- The leading decimal position is not above the quotient. -/
theorem ten_zpow_decimalExponent_le {num den : Nat} (hn : 0 < num) (hd : 0 < den)
    (hb : binaryExponent num den ≤ 2000) : (10 : ℚ) ^ decimalExponent num den ≤ num / den := by
  have he : 100000 * (binaryExponent num den * 30103).fdiv 100000 ≤
      30103 * binaryExponent num den := by
    rw [Int.fdiv_eq_ediv_of_nonneg _ (by decide)]
    omega
  have hlow := (ten_zpow_le_two_zpow he hb).trans (two_zpow_binaryExponent_le hn hd)
  unfold decimalExponent
  simp only [decide_eq_true_eq, snd_le_fst_scaleQuotient hd]
  split
  · assumption
  · split
    · assumption
    · exact hlow

end Credal.Number
