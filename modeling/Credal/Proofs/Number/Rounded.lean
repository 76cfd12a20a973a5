import Credal.Proofs.Number.Integral

/-!
# Rounding to doubles

A number is rounded to a double next to it. The result is off by a unit of the last place at most,
which is a `2 ^ 52`-th part of the number, or the least double.

* `Double.Holds`: an unpacked double in the form of the format, and its exact value;
* `Double.slip`: the bound for the error;
* `shiftToTargetExponent_eq`, `carry_shift`: what a shift leaves of a significand;
* `exists_roundWithAccuracy`: the two multiples of a unit between which is rounded;
* `roundWithAccuracy_holds`, `round_holds`, `normalize_holds`: rounding.
-/

namespace Credal.Number.Double

open Float.Model Float.Model.UnpackedFloat

/-! ## 1. Unpacked doubles -/

/-- The unpacked double is finite and in the form of the format, and this is its exact value. -/
inductive Holds : UnpackedFloat → ℚ → Prop
  | zero (s : Sign) : Holds (.zero s) 0
  | finite {s : Sign} {m : Nat} {e : Int} {hm : 0 < m} (hlt : m < 2 ^ 53) (he : -1074 ≤ e)
    (hlead : e = -1074 ∨ 2 ^ 52 ≤ m) : Holds (.finite s m e hm) (s.apply m * 2 ^ e)

/-- A bound for the error of a rounded operation with an exact result. -/
def slip (v : ℚ) : ℚ := |v| / 2 ^ 52 + 1 / 2 ^ 1074

theorem dyadicRat_eq (n e : Int) : dyadicRat n e = n * 2 ^ e := by
  unfold dyadicRat
  split
  · rename_i he
    obtain ⟨k, rfl⟩ := Int.eq_ofNat_of_zero_le he
    rw [twoTo_eq]
    push_cast
    rw [Int.toNat_natCast, zpow_natCast]
  · rename_i he
    obtain ⟨k, hk⟩ := Int.eq_ofNat_of_zero_le (show 0 ≤ -e by omega)
    obtain rfl : e = -k := by omega
    rw [twoTo_eq, Rat.mkRat_eq_div, neg_neg, Int.toNat_natCast, zpow_neg, zpow_natCast]
    push_cast
    rfl

theorem signed_isMinus (s : Sign) (m : Nat) (e : Int) :
    (Parts.mk (isMinus s) m e).signed = s.apply m := by
  cases s <;> rfl

variable {x y : Float} {a b v : ℚ} {u u' : UnpackedFloat}

theorem least_exponent_le {p : Parts} (h : parts? x = some p) : -1074 ≤ p.exponent := by
  unfold parts? at h
  dsimp only at h
  split at h
  · cases h
  · split at h
    · cases h
      exact le_refl _
    · cases h
      show (-1074 : Int) ≤ ((_ : Nat) : Int) - 1075
      omega

theorem toRat_partsOf (s : Sign) (m : Nat) (e : Int) :
    Parts.toRat ⟨isMinus s, m, e⟩ = s.apply m * 2 ^ e := by
  rw [Parts.toRat, dyadicRat_eq, signed_isMinus]

/-- **A double has an exact value** if its unpacked form holds it. -/
theorem toRat?_eq_some_iff : toRat? x = some a ↔ Holds x.toModel.unpack a := by
  have hparts := parts?_eq x
  have hregular := @regular_of_parts? x
  have hnormal := @isNormal_of_parts? x
  have hleast := @least_exponent_le x
  rw [hparts] at hregular hnormal hleast
  unfold toRat?
  rw [hparts]
  cases hu : x.toModel.unpack with
  | infinity s => exact ⟨nofun, nofun⟩
  | notANumber => exact ⟨nofun, nofun⟩
  | zero s =>
    have hzero : Parts.toRat ⟨isMinus s, 0, -1074⟩ = 0 := by
      rw [toRat_partsOf]
      cases s <;> simp [Sign.apply]
    show some (Parts.toRat ⟨isMinus s, 0, -1074⟩) = some a ↔ _
    rw [hzero, Option.some.injEq]
    constructor
    · rintro rfl
      exact .zero s
    · intro h
      cases h
      rfl
  | finite s m e hm =>
    rw [hu] at hregular hnormal hleast
    show some (Parts.toRat ⟨isMinus s, m, e⟩) = some a ↔ _
    rw [toRat_partsOf, Option.some.injEq]
    constructor
    · rintro rfl
      exact .finite (hregular rfl).significand_lt (hleast rfl) (hnormal rfl)
    · intro h
      cases h
      rfl

/-! ## 2. Rounding -/

/-- The exponent that a significand is rounded to. -/
def target (m : Nat) (e : Int) : Int := max (m.log2 + e - 52) (-1074)

theorem targetExponent_eq (m : Nat) (e : Int) :
    Format.binary64.targetExponent (totalExponent m e) = target m e := by
  have hbits : (Format.binary64.mantissaBits : Int) = 53 := rfl
  have hmin : Format.binary64.minExponent = -1074 := rfl
  rw [Format.targetExponent, totalExponent, target, hbits, hmin]
  congr 1
  omega

theorem mantissa_shiftRight (em : ExtendedMantissa) (n : Nat) :
    (em >>> n).mantissa = em.mantissa / 2 ^ n := by
  show (n.repeat ExtendedMantissa.shiftRightOne em).mantissa = _
  induction n with
  | zero => exact (Nat.div_one _).symm
  | succ n ih =>
    show (n.repeat ExtendedMantissa.shiftRightOne em).mantissa / 2 = _
    rw [ih, Nat.div_div_eq_div_mul, pow_succ]

theorem mantissa_ofMantissaAndAccuracy (m : Nat) (acc : Accuracy) :
    (ExtendedMantissa.ofMantissaAndAccuracy m acc).mantissa = m := by
  rcases acc with _ | (_ | _ | _) <;> rfl

/-- Rounding keeps the significand or adds one. -/
theorem roundedMantissa_cases (em : ExtendedMantissa) :
    em.roundedMantissa = em.mantissa ∨ em.roundedMantissa = em.mantissa + 1 := by
  obtain ⟨m, round, sticky⟩ := em
  cases round <;> cases sticky
  · exact .inl rfl
  · exact .inl rfl
  · show m + m % 2 = m ∨ m + m % 2 = m + 1
    omega
  · exact .inr rfl

/-- A shift to a larger exponent. -/
theorem shiftToTargetExponent_eq (m : Nat) (e : Int) (acc : Accuracy) :
    (shiftToTargetExponent Format.binary64 m e acc).1.mantissa =
        m / 2 ^ (target m e - e).toNat ∧
      (shiftToTargetExponent Format.binary64 m e acc).2 = e + (target m e - e).toNat := by
  rw [shiftToTargetExponent, targetExponent_eq]
  exact ⟨by rw [shiftToExponent, mantissa_shiftRight, mantissa_ofMantissaAndAccuracy], rfl⟩

theorem le_target (m : Nat) (e : Int) : -1074 ≤ target m e := le_max_right _ _

/-- What is left of a significand has at most 53 binary digits, and no fewer, unless the exponent is
    the least. -/
theorem shifted_bounds {m : Nat} {e : Int} (he : e ≤ target m e) :
    m / 2 ^ (target m e - e).toNat < 2 ^ 53 ∧
      (target m e = -1074 ∨ 2 ^ 52 ≤ m / 2 ^ (target m e - e).toNat) := by
  have hdigits : m.log2 + e - 52 ≤ target m e := le_max_left _ _
  constructor
  · refine Nat.div_lt_of_lt_mul ?_
    rw [← pow_add]
    refine m.lt_log2_self.trans_le (Nat.pow_le_pow_right two_pos ?_)
    omega
  · refine or_iff_not_imp_left.2 fun hleast => ?_
    have htarget : target m e = m.log2 + e - 52 := by
      unfold target at hleast ⊢
      omega
    have hm : m ≠ 0 := by
      rintro rfl
      have hlog : (0 : Nat).log2 = 0 := Nat.log2_zero
      omega
    rw [Nat.le_div_iff_mul_le (Nat.two_pow_pos _), ← pow_add]
    have hsum : 52 + (target m e - e).toNat = m.log2 := by omega
    rw [hsum]
    exact Nat.log2_self_le hm

/-- A carry into the next binade is shifted out without a loss. -/
theorem carry_shift {r : Nat} {t : Int} (hr : r ≤ 2 ^ 53) (ht : -1074 ≤ t)
    (hlead : t = -1074 ∨ 2 ^ 52 ≤ r) :
    ∃ m e, (shiftToTargetExponent Format.binary64 r t .exact).1.mantissa = m ∧
      (shiftToTargetExponent Format.binary64 r t .exact).2 = e ∧
      m < 2 ^ 53 ∧ -1074 ≤ e ∧ (e = -1074 ∨ 2 ^ 52 ≤ m) ∧ (m * 2 ^ e : ℚ) = r * 2 ^ t := by
  obtain ⟨hmantissa, hexponent⟩ := shiftToTargetExponent_eq r t .exact
  rw [hmantissa, hexponent]
  rcases hr.lt_or_eq with hlt | rfl
  · have hlog : r.log2 ≤ 52 := by
      rcases eq_or_ne r 0 with rfl | hne
      · exact Nat.zero_le _
      · exact Nat.le_of_lt_succ ((Nat.log2_lt hne).2 hlt)
    have hzero : (target r t - t).toNat = 0 := by
      unfold target
      omega
    rw [hzero, pow_zero, Nat.div_one, Nat.cast_zero, add_zero]
    exact ⟨r, t, rfl, rfl, hlt, ht, hlead, rfl⟩
  · have hone : (target (2 ^ 53) t - t).toNat = 1 := by
      unfold target
      rw [Nat.log2_two_pow]
      omega
    rw [hone]
    refine ⟨2 ^ 52, t + 1, rfl, rfl, by norm_num, by omega, .inr le_rfl, ?_⟩
    rw [zpow_add_one₀ two_ne_zero]
    push_cast
    ring

/-- The unit of a sign. -/
def unitOf (s : Sign) : ℚ := s.apply 1

theorem apply_eq (s : Sign) (n : Int) : (s.apply n : ℚ) = unitOf s * n := by
  cases s
  · simp [Sign.apply, unitOf]
  · simp [Sign.apply, unitOf]

theorem holds_of_parts (s : Sign) {m : Nat} {e : Int} (hlt : m < 2 ^ 53) (he : -1074 ≤ e)
    (hlead : e = -1074 ∨ 2 ^ 52 ≤ m) :
    Holds (if h : m = 0 then .zero s else .finite s m e (Nat.pos_of_ne_zero h))
      (unitOf s * (m * 2 ^ e)) := by
  split
  · rename_i hm
    rw [hm, Nat.cast_zero, zero_mul, mul_zero]
    exact .zero s
  · have hvalue : unitOf s * (m * 2 ^ e) = ((s.apply m : Int) : ℚ) * 2 ^ e := by
      rw [apply_eq, mul_assoc, Int.cast_natCast]
    rw [hvalue]
    exact .finite hlt he hlead

/-- A unit of the last place is a small part of the value, or the least double. -/
theorem unit_le_slip {m : Nat} {e : Int} (he : e ≤ target m e) (hv : (m * 2 ^ e : ℚ) ≤ v) :
    (2 : ℚ) ^ target m e ≤ slip v := by
  have hpos : (0 : ℚ) < 2 ^ e := zpow_pos two_pos e
  have hnonneg : 0 ≤ v := le_trans (mul_nonneg (Nat.cast_nonneg m) hpos.le) hv
  have hleast : (0 : ℚ) ≤ 1 / 2 ^ 1074 := by positivity
  rw [slip, abs_of_nonneg hnonneg]
  by_cases ht : target m e = -1074
  · have hpow : (2 : ℚ) ^ target m e = 1 / 2 ^ 1074 := by
      rw [ht, one_div]
      exact zpow_neg 2 1074
    rw [hpow]
    exact le_add_of_nonneg_left (by positivity)
  · have htarget : target m e = m.log2 + e - 52 := by
      unfold target at ht ⊢
      omega
    have hm : m ≠ 0 := by
      rintro rfl
      have hlog : (0 : Nat).log2 = 0 := Nat.log2_zero
      omega
    have hlog : (2 : ℚ) ^ m.log2 ≤ m := by exact_mod_cast Nat.log2_self_le hm
    have hpow : (2 : ℚ) ^ target m e = 2 ^ m.log2 * 2 ^ e / 2 ^ 52 := by
      rw [htarget, zpow_sub₀ two_ne_zero, zpow_add₀ two_ne_zero, zpow_natCast]
      rfl
    rw [hpow]
    refine le_add_of_le_of_nonneg ?_ hleast
    gcongr
    exact (mul_le_mul_of_nonneg_right hlog hpos.le).trans hv

/-- What is left of a significand is the number cut off at the target. -/
theorem cut_bounds {m : Nat} {e : Int} (he : e ≤ target m e) (hlower : (m * 2 ^ e : ℚ) ≤ v)
    (hupper : v < (m + 1) * 2 ^ e) :
    ((m / 2 ^ (target m e - e).toNat : Nat) * 2 ^ target m e : ℚ) ≤ v ∧
      v < ((m / 2 ^ (target m e - e).toNat : Nat) + 1) * 2 ^ target m e := by
  have hpow : (2 : ℚ) ^ target m e = 2 ^ (target m e - e).toNat * 2 ^ e := by
    rw [← zpow_natCast, ← zpow_add₀ two_ne_zero]
    congr 1
    omega
  have hpos : (0 : ℚ) < 2 ^ e := zpow_pos two_pos e
  rw [hpow, ← mul_assoc, ← mul_assoc]
  generalize (target m e - e).toNat = k
  constructor
  · refine le_trans ?_ hlower
    have hle : ((m / 2 ^ k : Nat) * 2 ^ k : ℚ) ≤ m := by
      exact_mod_cast Nat.div_mul_le_self m (2 ^ k)
    exact mul_le_mul_of_nonneg_right hle hpos.le
  · refine hupper.trans_le ?_
    have hlt : m + 1 ≤ (m / 2 ^ k + 1) * 2 ^ k :=
      Nat.lt_mul_of_div_lt (Nat.lt_succ_self _) (Nat.two_pow_pos k)
    have hle : (m + 1 : ℚ) ≤ ((m / 2 ^ k : Nat) + 1) * 2 ^ k := by exact_mod_cast hlt
    exact mul_le_mul_of_nonneg_right hle hpos.le

/-- **A rounded significand** is what is left of it at the target, or one more. -/
theorem exists_roundWithAccuracy (s : Sign) {m : Nat} {e : Int} (acc : Accuracy)
    (he : e ≤ target m e) : ∃ r : Nat,
      Holds (roundWithAccuracy Format.binary64 s m e acc) (unitOf s * (r * 2 ^ target m e)) ∧
        (r = m / 2 ^ (target m e - e).toNat ∨ r = m / 2 ^ (target m e - e).toNat + 1) := by
  obtain ⟨hfirst, hexponent⟩ := shiftToTargetExponent_eq m e acc
  have hround := roundedMantissa_cases (shiftToTargetExponent Format.binary64 m e acc).1
  obtain ⟨hlt, hlead⟩ := shifted_bounds he
  have htarget : e + ((target m e - e).toNat : Int) = target m e := by omega
  rw [htarget] at hexponent
  rw [hfirst] at hround
  unfold roundWithAccuracy
  generalize shiftToTargetExponent Format.binary64 m e acc = first at hround hexponent
  obtain ⟨em, t⟩ := first
  obtain rfl : t = target m e := hexponent
  dsimp only at hround ⊢
  generalize m / 2 ^ (target m e - e).toNat = cut at hround hlt hlead ⊢
  generalize em.roundedMantissa = r at hround ⊢
  have hlead' : target m e = -1074 ∨ 2 ^ 52 ≤ r := hlead.imp_right fun h => by omega
  obtain ⟨m', e', hm', he', hlt', hleast, hlead', hvalue⟩ :=
    carry_shift (r := r) (by omega) (le_target m e) hlead'
  generalize shiftToTargetExponent Format.binary64 r (target m e) .exact = final at hm' he' ⊢
  obtain ⟨em', t'⟩ := final
  subst hm' he'
  refine ⟨r, ?_, hround⟩
  rw [← hvalue]
  exact holds_of_parts s hlt' hleast hlead'

/-- **Rounding** a number that a significand is cut off from. -/
theorem roundWithAccuracy_holds (s : Sign) {m : Nat} {e : Int} (acc : Accuracy)
    (he : e ≤ target m e) (hlower : (m * 2 ^ e : ℚ) ≤ v) (hupper : v < (m + 1) * 2 ^ e) :
    ∃ w, Holds (roundWithAccuracy Format.binary64 s m e acc) (unitOf s * w) ∧ |w - v| ≤ slip v := by
  obtain ⟨r, hr, hround⟩ := exists_roundWithAccuracy s acc he
  obtain ⟨hcut, hrest⟩ := cut_bounds he hlower hupper
  refine ⟨_, hr, le_trans ?_ (unit_le_slip he hlower)⟩
  rw [abs_le]
  rcases hround with rfl | rfl
  · constructor <;> nlinarith
  · push_cast at hcut hrest ⊢
    constructor <;> nlinarith

theorem abs_unitOf (s : Sign) : |unitOf s| = 1 := by
  cases s <;> simp [unitOf, Sign.apply]

theorem slip_unitOf_mul (s : Sign) (v : ℚ) : slip (unitOf s * v) = slip v := by
  rw [slip, slip, abs_mul, abs_unitOf, one_mul]

theorem slip_nonneg (v : ℚ) : 0 ≤ slip v := by
  unfold slip
  positivity

/-- Rounding a number with its sign. -/
theorem exists_holds_signed {s : Sign} {u : UnpackedFloat}
    (h : ∃ w, Holds u (unitOf s * w) ∧ |w - v| ≤ slip v) :
    ∃ w, Holds u w ∧ |w - unitOf s * v| ≤ slip (unitOf s * v) := by
  obtain ⟨w, hw, herror⟩ := h
  refine ⟨_, hw, ?_⟩
  rw [slip_unitOf_mul, ← mul_sub, abs_mul, abs_unitOf, one_mul]
  exact herror

theorem target_mul_two_pow {m : Nat} (hm : m ≠ 0) (e : Int) (k : Nat) :
    target (m * 2 ^ k) (e - k) = target m e := by
  have hlog : (m * 2 ^ k).log2 = m.log2 + k := by
    rw [Nat.log2_eq_iff (mul_ne_zero hm (Nat.two_pow_pos k).ne'), pow_add, Nat.add_right_comm,
      pow_add]
    exact ⟨Nat.mul_le_mul_right _ (Nat.log2_self_le hm),
      Nat.mul_lt_mul_of_pos_right Nat.lt_log2_self (Nat.two_pow_pos k)⟩
  unfold target
  omega

/-- **Rounding** a significand that may be short. -/
theorem round_holds (s : Sign) {m : Nat} (hm : m ≠ 0) (e : Int) :
    ∃ w, Holds (UnpackedFloat.round Format.binary64 s m e) (unitOf s * w) ∧
      |w - m * 2 ^ e| ≤ slip (m * 2 ^ e) := by
  have hkept := target_mul_two_pow hm e (e - target m e).toNat
  have hle : e - ((e - target m e).toNat : Int) ≤
      target (m * 2 ^ (e - target m e).toNat) (e - ((e - target m e).toNat : Int)) := by
    rw [hkept]
    omega
  have hvalue : ((m * 2 ^ (e - target m e).toNat : Nat) : ℚ) *
      2 ^ (e - ((e - target m e).toNat : Int)) = m * 2 ^ e := by
    rw [zpow_sub₀ two_ne_zero, zpow_natCast]
    push_cast
    field_simp
  have hpos : (0 : ℚ) < 2 ^ (e - ((e - target m e).toNat : Int)) := zpow_pos two_pos _
  have hupper : (m * 2 ^ e : ℚ) < (((m * 2 ^ (e - target m e).toNat : Nat) : ℚ) + 1) *
      2 ^ (e - ((e - target m e).toNat : Int)) := by
    rw [add_mul, hvalue, one_mul]
    exact lt_add_of_pos_right _ hpos
  unfold UnpackedFloat.round decreaseExponent
  rw [targetExponent_eq]
  dsimp only
  rw [Nat.shiftLeft_eq]
  exact roundWithAccuracy_holds s .exact hle hvalue.le hupper

theorem slip_neg (v : ℚ) : slip (-v) = slip v := by rw [slip, slip, abs_neg]

theorem normalize_holds (n e : Int) (zeroSign : Sign) :
    ∃ w, Holds (UnpackedFloat.normalize Format.binary64 n e zeroSign) w ∧
      |w - n * 2 ^ e| ≤ slip (n * 2 ^ e) := by
  unfold UnpackedFloat.normalize
  rcases lt_trichotomy n 0 with hn | rfl | hn
  · obtain ⟨w, hw, herror⟩ := round_holds .negative (show (-n).toNat ≠ 0 by omega) e
    have hcast : (((-n).toNat : Nat) : ℚ) = -n := by
      exact_mod_cast Int.toNat_of_nonneg (show 0 ≤ -n by omega)
    have hunit : unitOf .negative * w = -w := by simp [unitOf, Sign.apply]
    rw [Int.compare_eq_lt.2 hn]
    rw [hunit] at hw
    refine ⟨_, hw, ?_⟩
    rw [hcast, neg_mul, slip_neg] at herror
    rw [← abs_neg]
    convert herror using 2
    ring
  · rw [Int.compare_eq_eq.2 rfl, Int.cast_zero, zero_mul]
    exact ⟨0, .zero zeroSign, by rw [sub_zero, abs_zero]; exact slip_nonneg 0⟩
  · obtain ⟨w, hw, herror⟩ := round_holds .positive (show n.toNat ≠ 0 by omega) e
    have hcast : ((n.toNat : Nat) : ℚ) = n := by
      exact_mod_cast Int.toNat_of_nonneg hn.le
    have hunit : unitOf .positive * w = w := by simp [unitOf, Sign.apply]
    rw [Int.compare_eq_gt.2 hn]
    rw [hunit] at hw
    rw [hcast] at herror
    exact ⟨w, hw, herror⟩

end Credal.Number.Double
