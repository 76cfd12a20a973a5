import Credal.Proofs.Number.Rounded

/-!
# Operations on doubles

The sum, difference, product and quotient of two doubles is the exact one, rounded. It is infinite
only near the largest double.

* `Holds.add`, `Holds.sub`, `Holds.mul`, `Holds.div`: operations on unpacked doubles;
* `holds_unpack_pack`: packing;
* `toRat?_add`, `toRat?_sub`, `toRat?_mul`, `toRat?_div`: the operations on doubles.
-/

namespace Credal.Number.Double

open Float.Model Float.Model.UnpackedFloat

variable {x y : Float} {a b v : ℚ} {u u' : UnpackedFloat}

/-! ## 1. Operations on unpacked doubles -/

theorem Holds.neg (h : Holds u a) : Holds u.neg (-a) := by
  cases h with
  | zero s =>
    rw [neg_zero]
    exact .zero (-s)
  | @finite s m e hm hlt he hlead =>
    have hvalue : -((s.apply m : ℚ) * 2 ^ e) = ((-s).apply m : Int) * 2 ^ e := by
      cases s
      · show -(((-(m : Int) : Int) : ℚ) * 2 ^ e) = ((m : Int) : ℚ) * 2 ^ e
        push_cast
        ring
      · show -(((m : Int) : ℚ) * 2 ^ e) = ((-(m : Int) : Int) : ℚ) * 2 ^ e
        push_cast
        ring
    rw [hvalue]
    exact .finite hlt he hlead

theorem Holds.abs (h : Holds u a) : Holds u.abs |a| := by
  cases h with
  | zero s =>
    rw [abs_zero]
    exact .zero .positive
  | @finite s m e hm hlt he hlead =>
    have hpos : (0 : ℚ) < 2 ^ e := zpow_pos two_pos e
    have hvalue : |(s.apply m : ℚ) * 2 ^ e| = (Sign.positive.apply m : Int) * 2 ^ e := by
      rw [apply_eq, abs_mul, abs_mul, abs_unitOf, one_mul, abs_of_pos hpos, Int.cast_natCast,
        Nat.abs_cast]
      rfl
    rw [hvalue]
    exact .finite hlt he hlead

theorem sub_eq_add (u u' : UnpackedFloat) :
    UnpackedFloat.sub Format.binary64 u u' = UnpackedFloat.add Format.binary64 u u'.neg := by
  have happly : ∀ (s : Sign) (n : Int), (-s).apply n = -s.apply n := by
    rintro (_ | _) n
    · exact (neg_neg n).symm
    · rfl
  cases u with
  | notANumber => cases u' <;> rfl
  | infinity s => cases u' <;> rfl
  | zero s => cases u' <;> rfl
  | finite s m e hm =>
    cases u' with
    | finite s' m' e' hm' =>
      show UnpackedFloat.normalize _ (_ - _) _ _ = UnpackedFloat.normalize _ (_ + _) _ _
      rw [happly, Int.sub_eq_add_neg]
    | _ => rfl

/-- A significand that is written with a smaller exponent. -/
theorem decreased_value (s : Sign) (m : Nat) {e t : Int} (h : t ≤ e) :
    ((s.apply (m <<< (e - t).toNat : Nat) : Int) : ℚ) * 2 ^ t = s.apply m * 2 ^ e := by
  have hpow : (2 : ℚ) ^ e = 2 ^ (e - t).toNat * 2 ^ t := by
    rw [← zpow_natCast, ← zpow_add₀ two_ne_zero]
    congr 1
    omega
  rw [apply_eq, apply_eq, Nat.shiftLeft_eq, hpow]
  push_cast
  ring

/-- A result that is exact. -/
theorem exists_holds_exact (h : Holds u v) : ∃ w, Holds u w ∧ |w - v| ≤ slip v :=
  ⟨v, h, by rw [sub_self, abs_zero]; exact slip_nonneg v⟩

/-- **Sums**. -/
theorem Holds.add (h : Holds u a) (h' : Holds u' b) :
    ∃ w, Holds (UnpackedFloat.add Format.binary64 u u') w ∧ |w - (a + b)| ≤ slip (a + b) := by
  cases h with
  | zero s =>
    rw [zero_add]
    cases h' with
    | zero s' =>
      refine exists_holds_exact ?_
      show Holds (if s == s' then _ else _) 0
      split
      · exact .zero s
      · exact .zero .positive
    | finite hlt he hlead => exact exists_holds_exact (.finite hlt he hlead)
  | @finite s m e hm hlt he hlead =>
    cases h' with
    | zero s' =>
      rw [add_zero]
      exact exists_holds_exact (.finite hlt he hlead)
    | @finite s' m' e' hm' hlt' he' hlead' =>
      rw [← decreased_value s m (min_le_left e e'), ← decreased_value s' m' (min_le_right e e'),
        ← add_mul, ← Int.cast_add]
      exact normalize_holds _ _ .positive

/-- **Differences**. -/
theorem Holds.sub (h : Holds u a) (h' : Holds u' b) :
    ∃ w, Holds (UnpackedFloat.sub Format.binary64 u u') w ∧ |w - (a - b)| ≤ slip (a - b) := by
  rw [sub_eq_add, sub_eq_add_neg]
  exact h.add h'.neg

theorem unitOf_mul (s s' : Sign) : unitOf (s * s') = unitOf s * unitOf s' := by
  cases s <;> cases s' <;> decide +kernel

theorem unitOf_div (s s' : Sign) : unitOf (s / s') = unitOf s / unitOf s' := by
  cases s <;> cases s' <;> decide +kernel

/-- A significand with 53 binary digits keeps its exponent or raises it. -/
theorem le_target_of_le {m : Nat} {e : Int} (h : 2 ^ 52 ≤ m) : e ≤ target m e := by
  have hlog : 52 ≤ m.log2 := (Nat.le_log2 (by omega)).2 h
  refine le_trans ?_ (le_max_left _ _)
  omega

/-- The exponent of a product is small enough for 53 binary digits. -/
theorem mul_le_target {m m' : Nat} {e e' : Int} (hm : 0 < m) (hm' : 0 < m')
    (hlead : e = -1074 ∨ 2 ^ 52 ≤ m) (hlead' : e' = -1074 ∨ 2 ^ 52 ≤ m') :
    e + e' ≤ target (m * m') (e + e') := by
  rcases hlead with rfl | hlead
  · rcases hlead' with rfl | hlead'
    · exact le_trans (by norm_num) (le_target _ _)
    · exact le_target_of_le (hlead'.trans (Nat.le_mul_of_pos_left m' hm))
  · exact le_target_of_le (hlead.trans (Nat.le_mul_of_pos_right m hm'))

/-- **Products**. -/
theorem Holds.mul (h : Holds u a) (h' : Holds u' b) :
    ∃ w, Holds (UnpackedFloat.mul Format.binary64 u u') w ∧ |w - a * b| ≤ slip (a * b) := by
  cases h with
  | zero s =>
    rw [zero_mul]
    cases h' with
    | zero s' => exact exists_holds_exact (.zero _)
    | finite hlt he hlead => exact exists_holds_exact (.zero _)
  | @finite s m e hm hlt he hlead =>
    cases h' with
    | zero s' =>
      rw [mul_zero]
      exact exists_holds_exact (.zero _)
    | @finite s' m' e' hm' hlt' he' hlead' =>
      have hvalue : (s.apply m * 2 ^ e * (s'.apply m' * 2 ^ e') : ℚ) =
          unitOf (s * s') * ((m * m' : Nat) * 2 ^ (e + e')) := by
        rw [apply_eq, apply_eq, unitOf_mul, zpow_add₀ two_ne_zero]
        push_cast
        ring
      rw [hvalue]
      refine exists_holds_signed (roundWithAccuracy_holds _ .exact
        (mul_le_target hm hm' hlead hlead') le_rfl ?_)
      exact mul_lt_mul_of_pos_right (lt_add_one _) (zpow_pos two_pos _)

/-- The exponent of a quotient is small enough for 53 binary digits. -/
theorem divCore_le_target {m m' : Nat} (hm : 0 < m) (hm' : 0 < m') (e e' : Int) :
    (divCore Format.binary64 m e m' e').2.1 ≤
      target (divCore Format.binary64 m e m' e').1 (divCore Format.binary64 m e m' e').2.1 := by
  have hbits : (Format.binary64.mantissaBits : Int) = 53 := rfl
  have hmin : Format.binary64.minExponent = -1074 := rfl
  unfold divCore
  dsimp only
  rw [Format.targetExponent, totalExponent, totalExponent, hbits, hmin, Nat.shiftLeft_eq]
  generalize ht : min (e - e') (max _ _) = t
  by_cases hleast : t ≤ -1074
  · exact hleast.trans (le_target _ _)
  · refine le_target_of_le ?_
    rw [Nat.le_div_iff_mul_le hm']
    have hlog : m'.log2 + 53 ≤ m.log2 + (e - e' - t).toNat := by omega
    calc 2 ^ 52 * m' ≤ 2 ^ 52 * 2 ^ (m'.log2 + 1) := Nat.mul_le_mul_left _ Nat.lt_log2_self.le
      _ = 2 ^ (m'.log2 + 53) := by rw [← pow_add]; congr 1; omega
      _ ≤ 2 ^ (m.log2 + (e - e' - t).toNat) := Nat.pow_le_pow_right two_pos hlog
      _ = 2 ^ m.log2 * 2 ^ (e - e' - t).toNat := pow_add _ _ _
      _ ≤ m * 2 ^ (e - e' - t).toNat := Nat.mul_le_mul_right _ (Nat.log2_self_le hm.ne')

/-- A quotient is cut off by a division of the significands. -/
theorem divCore_bounds {m m' : Nat} (hm' : 0 < m') (e e' : Int) :
    ((divCore Format.binary64 m e m' e').1 * 2 ^ (divCore Format.binary64 m e m' e').2.1 : ℚ) ≤
        m * 2 ^ e / (m' * 2 ^ e') ∧
      (m * 2 ^ e / (m' * 2 ^ e') : ℚ) < ((divCore Format.binary64 m e m' e').1 + 1) *
        2 ^ (divCore Format.binary64 m e m' e').2.1 := by
  unfold divCore
  dsimp only
  rw [Nat.shiftLeft_eq]
  generalize ht : min (e - e') _ = t
  have hpow : (2 : ℚ) ^ e = 2 ^ (e - e' - t).toNat * 2 ^ t * 2 ^ e' := by
    rw [← zpow_natCast, ← zpow_add₀ two_ne_zero, ← zpow_add₀ two_ne_zero]
    congr 1
    omega
  generalize (e - e' - t).toNat = k at hpow
  have hpos' : (0 : ℚ) < m' := Nat.cast_pos.2 hm'
  have hvalue : (m * 2 ^ e / (m' * 2 ^ e') : ℚ) = (m * 2 ^ k : Nat) / m' * 2 ^ t := by
    have hexp : (2 : ℚ) ^ e' ≠ 0 := zpow_ne_zero _ two_ne_zero
    rw [hpow]
    push_cast
    field_simp
  rw [hvalue]
  have hpos : (0 : ℚ) < 2 ^ t := zpow_pos two_pos t
  constructor
  · refine mul_le_mul_of_nonneg_right ?_ hpos.le
    exact Nat.cast_div_le
  · refine mul_lt_mul_of_pos_right ?_ hpos
    rw [div_lt_iff₀ hpos']
    exact_mod_cast Nat.lt_mul_of_div_lt (Nat.lt_succ_self _) hm'

/-- **Quotients**. -/
theorem Holds.div (h : Holds u a) (h' : Holds u' b) (hb : b ≠ 0) :
    ∃ w, Holds (UnpackedFloat.div Format.binary64 u u') w ∧ |w - a / b| ≤ slip (a / b) := by
  cases h' with
  | zero s' => exact absurd rfl hb
  | @finite s' m' e' hm' hlt' he' hlead' =>
    cases h with
    | zero s =>
      rw [zero_div]
      exact exists_holds_exact (.zero _)
    | @finite s m e hm hlt he hlead =>
      obtain ⟨hlower, hupper⟩ := divCore_bounds (m := m) hm' e e'
      have hvalue : (s.apply m * 2 ^ e / (s'.apply m' * 2 ^ e') : ℚ) =
          unitOf (s / s') * (m * 2 ^ e / (m' * 2 ^ e')) := by
        rw [apply_eq, apply_eq, unitOf_div]
        push_cast
        rw [mul_assoc, mul_assoc, mul_div_mul_comm]
      rw [hvalue]
      exact exists_holds_signed
        (roundWithAccuracy_holds _ _ (divCore_le_target hm hm' e e') hlower hupper)

/-! ## 2. Packing -/

theorem unpackSign_packComponents {f : Format} {s : Sign} {E : BitVec f.exponentBits}
    {M : BitVec f.mantissaBitsWithoutImplicit} :
    unpackSign (packComponents f s E M) = s.toBitVec := by
  ext i hi
  have hfirst : i = 0 := by omega
  simp [unpackSign, packComponents, BitVec.getLsbD_eq_getElem, BitVec.getLsbD_append, hfirst]
  rw [BitVec.getElem_append, dif_neg (lt_irrefl _)]
  simp

theorem unpack_packComponents (s : Sign) (E : BitVec 11) (M : BitVec 52) :
    UnpackedFloat.unpack Format.binary64 (packComponents Format.binary64 s E M) =
      if E = -1#_ then if M = 0#_ then .infinity s else .notANumber
      else if E = 0#_ then
        if h : M = 0#_ then .zero s
        else .finite s M.toNat (-1074) (by simpa [BitVec.toNat_pos, BitVec.pos_iff_ne_zero])
      else .finite s (1#1 ++ M).toNat (E.toNat - 1075)
        (by rw [toNat_one_append]; exact Nat.add_pos_right _ (Nat.two_pow_pos 52)) := by
  have hsign : Sign.ofBitVec s.toBitVec = s := by cases s <;> rfl
  unfold UnpackedFloat.unpack
  simp only [unpackMantissa_packComponents, unpackExponent_packComponents,
    unpackSign_packComponents, hsign]
  by_cases hT : E = -1#_
  · rw [if_pos hT, if_pos hT]
  · rw [if_neg hT, if_neg hT]
    by_cases hZ : E = 0#_
    · subst hZ
      rfl
    · rw [if_neg hZ, if_neg hZ]
      rfl

/-- The largest exponent. -/
theorem Holds.exponent_lt {s : Sign} {m : Nat} {e : Int} {hm : 0 < m}
    (h : Holds (.finite s m e hm) a) (ha : |a| < 2 ^ 1024) : e < 972 := by
  cases h with
  | finite hlt he hlead =>
    by_contra hge
    have hlead : 2 ^ 52 ≤ m := hlead.resolve_left (by omega)
    refine ha.not_ge ?_
    have hpos : (0 : ℚ) < 2 ^ e := zpow_pos two_pos e
    rw [apply_eq, abs_mul, abs_mul, abs_unitOf, one_mul, abs_of_pos hpos, Int.cast_natCast,
      Nat.abs_cast]
    have hlead' : (2 : ℚ) ^ 52 ≤ m := by exact_mod_cast hlead
    have htop : (2 : ℚ) ^ (972 : Int) ≤ 2 ^ e := zpow_le_zpow_right₀ one_le_two (not_lt.1 hge)
    have hsplit : (2 : ℚ) ^ 1024 = 2 ^ 52 * 2 ^ (972 : Int) := by
      rw [← zpow_ofNat, ← zpow_ofNat, ← zpow_add₀ two_ne_zero]
      rfl
    rw [hsplit]
    exact mul_le_mul hlead' htop (zpow_nonneg zero_le_two _) (Nat.cast_nonneg m)

theorem Holds.congr {s : Sign} {m m' : Nat} {e e' : Int} {hm : 0 < m} {hm' : 0 < m'}
    (h : Holds (.finite s m e hm) a) (hmantissa : m' = m) (hexponent : e' = e) :
    Holds (.finite s m' e' hm') a := by
  subst hmantissa hexponent
  exact h

theorem pack_finite (s : Sign) (m : Nat) (e : Int) (hm : 0 < m) :
    UnpackedFloat.pack Format.binary64 (.finite s m e hm) =
      if 2 ^ 11 ≤ (e + 1023 + 52).toNat + 1 then packedInfinity Format.binary64 s
      else if m.log2 + 1 = 53 then packComponents Format.binary64 s
        (BitVec.ofNat 11 (e + 1023 + 52).toNat) (BitVec.ofNat 52 m)
      else packComponents Format.binary64 s 0#11 (BitVec.ofNat 52 m) := rfl

/-- **Packing** keeps a number that is no larger than the doubles. -/
theorem holds_unpack_pack (h : Holds u a) (ha : |a| < 2 ^ 1024) :
    Holds (UnpackedFloat.unpack Format.binary64 (UnpackedFloat.pack Format.binary64 u)) a := by
  cases u with
  | infinity s => cases h
  | notANumber => cases h
  | zero s =>
    cases h
    unfold UnpackedFloat.pack packedZero
    rw [unpack_packComponents, if_neg (by decide), if_pos (show (0 : BitVec 11) = 0#11 from rfl),
      dif_pos (show (0 : BitVec 52) = 0#52 from rfl)]
    exact .zero s
  | finite s m e hm =>
    have hexp := h.exponent_lt ha
    obtain ⟨hlt, he, hlead⟩ : m < 2 ^ 53 ∧ -1074 ≤ e ∧ (e = -1074 ∨ 2 ^ 52 ≤ m) := by
      cases h with
      | finite hlt he hlead => exact ⟨hlt, he, hlead⟩
    have hlog := Nat.log2_self_le hm.ne'
    rw [pack_finite, if_neg (by omega)]
    by_cases hnormal : m.log2 + 1 = 53
    · have hm' : 2 ^ 52 ≤ m := by
        rwa [show m.log2 = 52 by omega] at hlog
      have hE : (BitVec.ofNat 11 (e + 1023 + 52).toNat).toNat = (e + 1075).toNat := by
        rw [BitVec.toNat_ofNat]
        omega
      have hM : (BitVec.ofNat 52 m).toNat = m - 2 ^ 52 := by
        rw [BitVec.toNat_ofNat]
        omega
      have htop : BitVec.ofNat 11 (e + 1023 + 52).toNat ≠ -1#11 := fun hE' => by
        have hvalue := hE.symm.trans (congrArg BitVec.toNat hE')
        have hones : (-1#11).toNat = 2047 := rfl
        omega
      have hbottom : BitVec.ofNat 11 (e + 1023 + 52).toNat ≠ 0#11 := fun hE' => by
        have hvalue := hE.symm.trans (congrArg BitVec.toNat hE')
        have hzero : (0#11).toNat = 0 := rfl
        omega
      rw [if_pos hnormal, unpack_packComponents, if_neg htop, if_neg hbottom]
      refine h.congr ?_ (by omega)
      rw [toNat_one_append, hM]
      exact Nat.sub_add_cancel hm'
    · have hm' : m < 2 ^ 52 := by
        by_contra hge
        have hlow := (Nat.le_log2 hm.ne').2 (not_lt.1 hge)
        have hhigh := (Nat.log2_lt hm.ne').2 hlt
        omega
      have hM : (BitVec.ofNat 52 m).toNat = m := by
        rw [BitVec.toNat_ofNat]
        omega
      have hne : BitVec.ofNat 52 m ≠ 0#52 := fun hM' => by
        have hvalue := hM.symm.trans (congrArg BitVec.toNat hM')
        exact hm.ne' hvalue
      rw [if_neg hnormal, unpack_packComponents, if_neg (by decide), if_pos rfl, dif_neg hne]
      exact h.congr hM (by omega)

/-! ## 3. Operations on doubles -/

theorem toRat?_pack (h : Holds u a) (ha : |a| < 2 ^ 1024) {x : Float}
    (hx : x.toModel = Float.Model.pack u) : toRat? x = some a := by
  rw [toRat?_eq_some_iff, hx]
  exact holds_unpack_pack h ha

/-- A rounded result of a number that is not near the largest double. -/
theorem exists_toRat?_pack {x : Float} (h : ∃ w, Holds u w ∧ |w - v| ≤ slip v)
    (hx : x.toModel = Float.Model.pack u) (hv : |v| < 2 ^ 1023) :
    ∃ w, toRat? x = some w ∧ |w - v| ≤ slip v := by
  obtain ⟨w, hw, herror⟩ := h
  refine ⟨w, toRat?_pack hw ?_ hx, herror⟩
  have hhalf : slip v ≤ 2 ^ 1023 := by
    have hlarge : (1 : ℚ) ≤ 2 ^ 1023 := one_le_pow₀ one_le_two
    have hpart : |v| / 2 ^ 52 ≤ |v| / 2 :=
      div_le_div_of_nonneg_left (abs_nonneg v) two_pos (le_self_pow₀ one_le_two (by norm_num))
    have hleast : (1 : ℚ) / 2 ^ 1074 ≤ 1 / 2 :=
      one_div_le_one_div_of_le two_pos (le_self_pow₀ one_le_two (by norm_num))
    unfold slip
    generalize (2 : ℚ) ^ 1023 = top at hv hlarge ⊢
    generalize (1 : ℚ) / 2 ^ 1074 = least at hleast ⊢
    linarith
  calc |w| = |w - v + v| := by rw [sub_add_cancel]
    _ ≤ |w - v| + |v| := abs_add_le _ _
    _ < 2 ^ 1023 + 2 ^ 1023 := add_lt_add_of_le_of_lt (herror.trans hhalf) hv
    _ = 2 ^ 1024 := ((pow_succ 2 1023).trans (mul_two _)).symm

theorem natAbs_signed (p : Parts) : p.signed.natAbs = p.significand := by
  unfold Parts.signed
  split
  · rw [Int.natAbs_neg, Int.natAbs_natCast]
  · rw [Int.natAbs_natCast]

/-- Doubles are bounded. -/
theorem abs_lt_of_toRat? (hx : toRat? x = some a) : |a| < 2 ^ 1024 := by
  obtain ⟨p, hp, rfl⟩ := Option.map_eq_some_iff.1 hx
  obtain ⟨hsignificand, hexponent⟩ := regular_of_parts? hp
  have hlt : (p.significand : ℚ) < 2 ^ 53 := by exact_mod_cast hsignificand
  have hle : (2 : ℚ) ^ p.exponent ≤ 2 ^ (971 : Int) := zpow_le_zpow_right₀ one_le_two hexponent
  have hpos : (0 : ℚ) < 2 ^ p.exponent := zpow_pos two_pos _
  have hsplit : (2 : ℚ) ^ 1024 = 2 ^ 53 * 2 ^ (971 : Int) := by
    rw [← zpow_ofNat, ← zpow_ofNat, ← zpow_add₀ two_ne_zero]
    rfl
  rw [Parts.toRat, dyadicRat_eq, abs_mul, abs_of_pos hpos, ← Int.cast_abs, Int.abs_eq_natAbs,
    natAbs_signed, Int.cast_natCast, hsplit]
  exact mul_lt_mul hlt hle hpos (by positivity)

theorem toRat?_neg (hx : toRat? x = some a) : toRat? (-x) = some (-a) :=
  toRat?_pack (toRat?_eq_some_iff.1 hx).neg (by rw [abs_neg]; exact abs_lt_of_toRat? hx) rfl

/-- **Sums**. -/
theorem toRat?_add (hx : toRat? x = some a) (hy : toRat? y = some b) (hv : |a + b| < 2 ^ 1023) :
    ∃ w, toRat? (x + y) = some w ∧ |w - (a + b)| ≤ slip (a + b) :=
  exists_toRat?_pack ((toRat?_eq_some_iff.1 hx).add (toRat?_eq_some_iff.1 hy)) rfl hv

/-- **Differences**. -/
theorem toRat?_sub (hx : toRat? x = some a) (hy : toRat? y = some b) (hv : |a - b| < 2 ^ 1023) :
    ∃ w, toRat? (x - y) = some w ∧ |w - (a - b)| ≤ slip (a - b) :=
  exists_toRat?_pack ((toRat?_eq_some_iff.1 hx).sub (toRat?_eq_some_iff.1 hy)) rfl hv

/-- **Products**. -/
theorem toRat?_mul (hx : toRat? x = some a) (hy : toRat? y = some b) (hv : |a * b| < 2 ^ 1023) :
    ∃ w, toRat? (x * y) = some w ∧ |w - a * b| ≤ slip (a * b) :=
  exists_toRat?_pack ((toRat?_eq_some_iff.1 hx).mul (toRat?_eq_some_iff.1 hy)) rfl hv

/-- **Quotients**. -/
theorem toRat?_div (hx : toRat? x = some a) (hy : toRat? y = some b) (hb : b ≠ 0)
    (hv : |a / b| < 2 ^ 1023) : ∃ w, toRat? (x / y) = some w ∧ |w - a / b| ≤ slip (a / b) :=
  exists_toRat?_pack ((toRat?_eq_some_iff.1 hx).div (toRat?_eq_some_iff.1 hy) hb) rfl hv

end Credal.Number.Double
