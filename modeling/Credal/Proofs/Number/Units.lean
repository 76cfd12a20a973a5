import Credal.Proofs.Number.Comparisons
import Credal.Proofs.Number.Operations
import Mathlib.Tactic.Linarith

/-!
# Doubles from zero up to one

A double that is scaled by one from zero up to one does not pass itself. The error of rounding is
too coarse a bound for this; but rounding does not pass a double, so where the exact product of two
doubles is below a third, the rounded product is not above it. A quotient of natural numbers is
below one if its divisor is larger, as long as both are small against the precision of doubles.

* `Holds.next_le`: no double lies between two neighbours;
* `toRat?_mul_le`: products of doubles that are not negative;
* `exists_toRat?_of_unit`, `mul_unit_le`: the doubles from zero up to one, and a double times one
  of these;
* `exists_toRat?_ofNat`, `ofNat_div_unit`: natural numbers as doubles, and their quotients.
-/

namespace Credal.Number.Double

open Float.Model Float.Model.UnpackedFloat

variable {x y z : Float} {a b c : ℚ} {u u' u'' : UnpackedFloat}

theorem unitOf_positive : unitOf .positive = 1 := by decide +kernel

theorem positive_of_nonneg {s : Sign} {m : Nat} {e : Int} (hm : 0 < m)
    (h : 0 ≤ ((s.apply m : Int) : ℚ) * 2 ^ e) : s = .positive := by
  cases s with
  | positive => rfl
  | negative =>
    have hneg : ((Sign.negative.apply m : Int) : ℚ) < 0 := Int.cast_lt_zero.2 (by
      show -(m : Int) < 0
      omega)
    exact absurd h (not_le.2 (mul_neg_of_neg_of_pos hneg (zpow_pos two_pos e)))

/-- **No double lies between two neighbours**, where the lower one has its leading digit. -/
theorem Holds.next_le (h : Holds u a) {cut : Nat} {t : Int} (hlead : t = -1074 ∨ 2 ^ 52 ≤ cut)
    (hlt : (cut * 2 ^ t : ℚ) < a) : ((cut + 1 : Nat) * 2 ^ t : ℚ) ≤ a := by
  have hpos : (0 : ℚ) < 2 ^ t := zpow_pos two_pos t
  have hcut : (0 : ℚ) ≤ cut * 2 ^ t := mul_nonneg (Nat.cast_nonneg cut) hpos.le
  cases h with
  | zero s => exact absurd hlt (not_lt.2 hcut)
  | @finite s m e hm hm53 he hlead' =>
    obtain rfl := positive_of_nonneg hm (hcut.trans hlt.le)
    have hvalue : ((Sign.positive.apply m : Int) : ℚ) * 2 ^ e = m * 2 ^ e := rfl
    rw [hvalue] at hlt ⊢
    rcases le_or_gt t e with hle | hless
    · -- a multiple of the unit
      have hpow : (2 : ℚ) ^ e = 2 ^ (e - t).toNat * 2 ^ t := by
        rw [← zpow_natCast, ← zpow_add₀ two_ne_zero]
        congr 1
        omega
      rw [hpow, ← mul_assoc] at hlt ⊢
      have hcount : cut < m * 2 ^ (e - t).toNat := by
        exact_mod_cast lt_of_mul_lt_mul_right hlt hpos.le
      refine mul_le_mul_of_nonneg_right ?_ hpos.le
      exact_mod_cast hcount
    · exact absurd hlt (not_lt.2 (compare_canonical hm53 he hlead hless).le)

/-- A product that is not negative does not pass a double that is above it. -/
theorem Holds.mul_le (h : Holds u a) (h' : Holds u' b) (h'' : Holds u'' c) (ha : 0 ≤ a)
    (hb : 0 ≤ b) (hlt : a * b < c) :
    ∃ w, Holds (UnpackedFloat.mul Format.binary64 u u') w ∧ 0 ≤ w ∧ w ≤ c := by
  have hc : 0 ≤ c := (mul_nonneg ha hb).trans hlt.le
  cases h with
  | zero s => cases h' <;> exact ⟨0, .zero _, le_rfl, hc⟩
  | @finite s m e hm hm53 he hlead =>
    cases h' with
    | zero s' => exact ⟨0, .zero _, le_rfl, hc⟩
    | @finite s' m' e' hm' hm53' he' hlead' =>
      obtain rfl := positive_of_nonneg hm ha
      obtain rfl := positive_of_nonneg hm' hb
      have htarget := mul_le_target hm hm' hlead hlead'
      obtain ⟨r, hr, hround⟩ := exists_roundWithAccuracy (.positive * .positive) .exact htarget
      have hvalue : ((m * m' : Nat) * 2 ^ (e + e') : ℚ) =
          (Sign.positive.apply m : Int) * 2 ^ e * ((Sign.positive.apply m' : Int) * 2 ^ e') := by
        rw [zpow_add₀ two_ne_zero, apply_eq, apply_eq, unitOf_positive]
        push_cast
        ring
      have hpos : (0 : ℚ) < 2 ^ (e + e') := zpow_pos two_pos _
      obtain ⟨hcut, -⟩ := cut_bounds htarget hvalue.le
        (by rw [← hvalue]; exact mul_lt_mul_of_pos_right (lt_add_one _) hpos)
      obtain ⟨-, hlead''⟩ := shifted_bounds htarget
      rw [unitOf_mul, unitOf_positive, one_mul, one_mul] at hr
      refine ⟨_, hr, mul_nonneg (Nat.cast_nonneg r) (zpow_nonneg two_pos.le _), ?_⟩
      rcases hround with rfl | rfl
      · exact hcut.trans hlt.le
      · exact h''.next_le hlead'' (hcut.trans_lt hlt)

/-- **Products do not pass a double**: where the exact product is below it, the rounded one is not
    above it. -/
theorem toRat?_mul_le (hx : toRat? x = some a) (hy : toRat? y = some b) (hz : toRat? z = some c)
    (ha : 0 ≤ a) (hb : 0 ≤ b) (hlt : a * b < c) :
    ∃ w, toRat? (x * y) = some w ∧ 0 ≤ w ∧ w ≤ c := by
  obtain ⟨w, hw, h0, hle⟩ := (toRat?_eq_some_iff.1 hx).mul_le (toRat?_eq_some_iff.1 hy)
    (toRat?_eq_some_iff.1 hz) ha hb hlt
  have hbound : |w| < 2 ^ 1024 := by
    rw [abs_of_nonneg h0]
    exact (hle.trans (le_abs_self c)).trans_lt (abs_lt_of_toRat? hz)
  exact ⟨w, toRat?_pack hw hbound rfl, h0, hle⟩

theorem toRat?_zero : toRat? 0 = some 0 := by decide +kernel

theorem toRat?_one : toRat? 1 = some 1 := by decide +kernel

/-- **The doubles from zero up to one** have exact values. -/
theorem exists_toRat?_of_unit (h0 : 0 ≤ x) (h1 : x < 1) :
    ∃ a, toRat? x = some a ∧ 0 ≤ a ∧ a < 1 := by
  have hfinite : ∃ a, toRat? x = some a := by
    have hle := le_iff_compare.1 h0
    have hlt := lt_iff_compare.1 h1
    unfold toRat?
    rw [parts?_eq]
    cases hu : x.toModel.unpack with
    | notANumber => rw [hu] at hlt; exact nomatch hlt
    | infinity s =>
      rw [hu] at hle hlt
      cases s with
      | negative => exact nomatch hle
      | positive => exact nomatch hlt
    | zero s => exact ⟨_, rfl⟩
    | finite s m e hm => exact ⟨_, rfl⟩
  obtain ⟨a, ha⟩ := hfinite
  exact ⟨a, ha, (le_iff toRat?_zero ha).1 h0, (lt_iff ha toRat?_one).1 h1⟩

/-- **A positive double times one from zero up to one** is not negative and not above it. -/
theorem mul_unit_le (hy : toRat? y = some b) (hb : 0 < b) (h0 : 0 ≤ x) (h1 : x < 1) :
    0 ≤ y * x ∧ y * x ≤ y := by
  obtain ⟨a, ha, ha0, ha1⟩ := exists_toRat?_of_unit h0 h1
  obtain ⟨w, hw, hw0, hwb⟩ := toRat?_mul_le hy ha hy hb.le ha0 (mul_lt_of_lt_one_right hb ha1)
  exact ⟨(le_iff toRat?_zero hw).2 hw0, (le_iff hw hy).2 hwb⟩

/-! ## Natural numbers -/

/-- The error of a rounded number that is not tiny. -/
theorem slip_le {v : ℚ} (hv : 1 / 2 ^ 1022 ≤ v) : slip v ≤ v / 2 ^ 51 := by
  have hpos : (0 : ℚ) ≤ v := le_trans (by positivity) hv
  have hleast : (1 : ℚ) / 2 ^ 1074 = 1 / 2 ^ 1022 / 2 ^ 52 := by rw [div_div, ← pow_add]
  have hpart : (1 : ℚ) / 2 ^ 1022 / 2 ^ 52 ≤ v / 2 ^ 52 := by gcongr
  rw [slip, abs_of_nonneg hpos, hleast]
  calc v / 2 ^ 52 + 1 / 2 ^ 1022 / 2 ^ 52 ≤ v / 2 ^ 52 + v / 2 ^ 52 := add_le_add_right hpart _
    _ = v / 2 ^ 51 := by ring

theorem least_le {v : ℚ} (hv : 1 / 2 ^ 32 ≤ v) : 1 / 2 ^ 1022 ≤ v :=
  le_trans (one_div_le_one_div_of_le (by positivity)
    (pow_le_pow_right₀ one_le_two (by norm_num))) hv

/-- A natural number is rounded to a double. -/
theorem exists_toRat?_toFloat (n : UInt64) :
    ∃ w, toRat? n.toFloat = some w ∧ |w - n.toNat| ≤ slip n.toNat := by
  obtain ⟨w, hw, herror⟩ := normalize_holds n.toNat 0 .positive
  rw [zpow_zero, mul_one, Int.cast_natCast] at herror
  refine exists_toRat?_pack ⟨w, hw, herror⟩ rfl ?_
  rw [Nat.abs_cast]
  have hlt : (n.toNat : ℚ) < 2 ^ 64 := by exact_mod_cast n.toNat_lt
  exact hlt.trans (pow_lt_pow_right₀ one_lt_two (by norm_num))

/-- **A positive natural number as a double** is off by a small part of it. -/
theorem exists_toRat?_ofNat {n : Nat} (hpos : 0 < n) (hn : n < 2 ^ 53) :
    ∃ w, toRat? (Float.ofNat n) = some w ∧ |w - n| ≤ n / 2 ^ 49 := by
  have hone : toRat? (Float.ofBits 4607182418800017408) = some 1 := by decide +kernel
  have hprod : Float.ofNat n = n.toUInt64.toFloat * Float.ofBits 4607182418800017408 := by
    show Float.ofScientific n false 0 = _
    unfold Float.ofScientific
    rw [dif_pos ⟨hn, by decide⟩]
    rfl
  have hword : n.toUInt64.toNat = n := UInt64.toNat_ofNat_of_lt' (hn.trans (by decide))
  have hn1 : (1 : ℚ) ≤ n := by exact_mod_cast hpos
  have hn53 : (n : ℚ) < 2 ^ 53 := by exact_mod_cast hn
  obtain ⟨v, hv, hverror⟩ := exists_toRat?_toFloat n.toUInt64
  rw [hword] at hverror
  have hfirst : |v - n| ≤ n / 2 ^ 51 :=
    hverror.trans (slip_le (least_le (le_trans (by norm_num) hn1)))
  obtain ⟨hlow, hhigh⟩ := abs_le.1 hfirst
  have hbound : |v * 1| < 2 ^ 1023 := by
    have hlarge : (2 : ℚ) ^ 54 < 2 ^ 1023 := pow_lt_pow_right₀ one_lt_two (by norm_num)
    rw [mul_one, abs_lt]
    generalize (2 : ℚ) ^ 1023 = top at hlarge
    constructor <;> linarith
  obtain ⟨w, hw, hwerror⟩ := toRat?_mul hv hone hbound
  rw [mul_one] at hwerror
  have hsecond : |w - v| ≤ v / 2 ^ 51 :=
    hwerror.trans (slip_le (least_le (by linarith)))
  refine ⟨w, by rw [hprod]; exact hw, ?_⟩
  obtain ⟨hlow', hhigh'⟩ := abs_le.1 hsecond
  rw [abs_le]
  constructor <;> linarith

/-- **A natural number below `2 ^ 31`, divided by that**, is a double from zero up to one. -/
theorem ofNat_div_unit {n : Nat} (hn : n < 2147483648) :
    0 ≤ Float.ofNat n / Float.ofNat 2147483648 ∧ Float.ofNat n / Float.ofNat 2147483648 < 1 := by
  rcases Nat.eq_zero_or_pos n with rfl | hpos
  · decide +kernel
  · have hdivisor : toRat? (Float.ofNat 2147483648) = some 2147483648 := by decide +kernel
    have hn1 : (1 : ℚ) ≤ n := by exact_mod_cast hpos
    have hn31 : (n : ℚ) ≤ 2147483647 := by exact_mod_cast Nat.le_of_lt_succ hn
    obtain ⟨v, hv, hverror⟩ := exists_toRat?_ofNat hpos (hn.trans (by norm_num))
    obtain ⟨hlow, hhigh⟩ := abs_le.1 hverror
    have hleast : 1 / 2 ^ 32 ≤ v / 2147483648 := by linarith
    have hbound : |v / 2147483648| < 2 ^ 1023 := by
      have hlarge : (2 : ℚ) ^ 54 < 2 ^ 1023 := pow_lt_pow_right₀ one_lt_two (by norm_num)
      rw [abs_lt]
      generalize (2 : ℚ) ^ 1023 = top at hlarge
      constructor <;> linarith
    obtain ⟨w, hw, hwerror⟩ := toRat?_div hv hdivisor (by norm_num) hbound
    have hsecond := hwerror.trans (slip_le (least_le hleast))
    obtain ⟨hlow', hhigh'⟩ := abs_le.1 hsecond
    constructor
    · exact (le_iff toRat?_zero hw).2 (by linarith)
    · exact (lt_iff hw toRat?_one).2 (by linarith)

end Credal.Number.Double
