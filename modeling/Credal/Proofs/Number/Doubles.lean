import Credal.Language.RealExpr
import Credal.Proofs.Number.Shortest

/-!
# Doubles and their parts

The comparisons of doubles work on an unpacked form, the exact values on the parts that the bits
give. Both read the same bits.

* `Double.parts?_eq`: the parts are those of the unpacked form;
* `Double.isFinite_iff`, `Double.beq_zero_iff`, `Double.lt_zero_iff`: being finite, zero or negative
  in terms of the parts;
* `Double.shortest?_eq_zero_iff`: only a zero has the shortest decimal zero;
* `Double.exists_shortest?_of_integer?`: an integral double stands for an integer.
-/

namespace Credal.Number.Double

open Float.Model Float.Model.UnpackedFloat

/-! ## 1. Bits -/

/-- Whether a sign is a minus. -/
def isMinus : Sign → Bool
  | .negative => true
  | .positive => false

/-- The parts of an unpacked double. -/
def partsOf : UnpackedFloat → Option Parts
  | .infinity _ | .notANumber => none
  | .zero s => some ⟨isMinus s, 0, -1074⟩
  | .finite s m e _ => some ⟨isMinus s, m, e⟩

theorem toNat_unpackExponent (b : BitVec 64) :
    (@unpackExponent Format.binary64 b).toNat = b.toNat / twoTo 52 % twoTo 11 := by
  simp only [unpackExponent, BitVec.toNat_cast, BitVec.extractLsb_toNat, Nat.shiftRight_eq_div_pow]
  rfl

theorem toNat_unpackMantissa (b : BitVec 64) :
    (@unpackMantissa Format.binary64 b).toNat = b.toNat % twoTo 52 := by
  simp only [unpackMantissa, BitVec.toNat_cast, BitVec.extractLsb_toNat, Nat.shiftRight_zero]
  rfl

theorem isMinus_unpackSign (b : BitVec 64) :
    isMinus (Sign.ofBitVec (@unpackSign Format.binary64 b)) =
      decide (twoTo 63 ≤ b.toNat) := by
  have h : (@unpackSign Format.binary64 b).toNat = b.toNat / 2 ^ 63 := by
    have hb : b.toNat < 2 ^ 64 := b.isLt
    simp only [unpackSign, BitVec.toNat_cast, BitVec.extractLsb_toNat, Nat.shiftRight_eq_div_pow]
    show b.toNat / 2 ^ 63 % 2 ^ 1 = b.toNat / 2 ^ 63
    omega
  have e : twoTo 63 = 2 ^ 63 := rfl
  unfold Sign.ofBitVec
  by_cases hz : @unpackSign Format.binary64 b = 0#1
  · have h0 : (@unpackSign Format.binary64 b).toNat = 0 := by rw [hz]; rfl
    rw [if_pos hz, e]
    exact (decide_eq_false (by omega)).symm
  · have h0 : (@unpackSign Format.binary64 b).toNat ≠ 0 :=
      fun h0 => hz (BitVec.eq_of_toNat_eq h0)
    rw [if_neg hz, e]
    exact (decide_eq_true (by omega)).symm

/-- The leading one of a normal significand, which its bits leave out. -/
theorem toNat_one_append (v : BitVec 52) : (1#1 ++ v).toNat = v.toNat + twoTo 52 := by
  rw [BitVec.toNat_append, ← Nat.shiftLeft_add_eq_or_of_lt v.isLt, Nat.add_comm]
  rfl

/-- **The parts of a double are those of its unpacked form.** -/
theorem parts?_eq (x : Float) : parts? x = partsOf x.toModel.unpack := by
  have hx : x.toBits.toNat = x.toModel.toBits.toBitVec.toNat := rfl
  unfold parts? Float.Model.unpack UnpackedFloat.unpack
  simp only [hx]
  generalize x.toModel.toBits.toBitVec = b
  rw [← toNat_unpackExponent, ← toNat_unpackMantissa, ← isMinus_unpackSign]
  have top : @unpackExponent Format.binary64 b = -1#_ ↔
      (@unpackExponent Format.binary64 b).toNat = 2047 := BitVec.toNat_inj.symm
  have bottom : @unpackExponent Format.binary64 b = 0#_ ↔
      (@unpackExponent Format.binary64 b).toNat = 0 := BitVec.toNat_inj.symm
  have empty : @unpackMantissa Format.binary64 b = 0#_ ↔
      (@unpackMantissa Format.binary64 b).toNat = 0 := BitVec.toNat_inj.symm
  have bias : (Format.binary64.exponentBias : Int) + Format.binary64.mantissaBitsWithoutImplicit =
      1075 := by decide
  rw [bias]
  by_cases hT : (@unpackExponent Format.binary64 b).toNat = 2047
  · rw [if_pos hT, if_pos (top.2 hT)]
    split <;> rfl
  · rw [if_neg hT, if_neg (mt top.1 hT)]
    by_cases hZ : (@unpackExponent Format.binary64 b).toNat = 0
    · rw [if_pos hZ, if_pos (bottom.2 hZ)]
      by_cases h0 : (@unpackMantissa Format.binary64 b).toNat = 0
      · rw [dif_pos (empty.2 h0), h0]
        rfl
      · rw [dif_neg (mt empty.1 h0), hZ]
        rfl
    · rw [if_neg hZ, if_neg (mt bottom.1 hZ)]
      simp only [partsOf, toNat_one_append]

/-- The parts of a double keep within the format. -/
theorem regular_of_parts? {x : Float} {p : Parts} (h : parts? x = some p) : Shortest.Regular p := by
  have e52 : twoTo 52 = 2 ^ 52 := rfl
  have e11 : twoTo 11 = 2048 := rfl
  unfold parts? at h
  simp only [e52, e11] at h
  split at h
  · cases h
  · split at h
    · cases h
      exact ⟨by show _ % _ < _; omega, by show (-1074 : Int) ≤ 971; decide⟩
    · cases h
      exact ⟨by show _ % _ + _ < _; omega, by show ((_ : Nat) : Int) - 1075 ≤ 971; omega⟩

/-! ## 2. Finite, zero, negative -/

theorem unpack_zero : (0 : Float).toModel.unpack = .zero .positive := rfl

theorem isFinite_iff (x : Float) : x.isFinite = true ↔ (parts? x).isSome = true := by
  have h : x.isFinite = x.toModel.unpack.isFinite := rfl
  rw [h, parts?_eq]
  cases x.toModel.unpack <;> exact Iff.rfl

section

variable {x : Float} {p : Parts}

/-- A double equals zero if its significand is zero. -/
theorem beq_zero_iff (h : parts? x = some p) : (x == 0) = true ↔ p.significand = 0 := by
  have hx : (x == 0) = (x.toModel.unpack.compare (0 : Float).toModel.unpack == some .eq) := rfl
  rw [parts?_eq] at h
  rw [hx, unpack_zero]
  cases hu : x.toModel.unpack with
  | infinity s => rw [hu] at h; cases h
  | notANumber => rw [hu] at h; cases h
  | zero s =>
    rw [hu] at h
    cases h
    exact ⟨fun _ => rfl, fun _ => rfl⟩
  | finite s m e hm =>
    rw [hu] at h
    cases h
    refine ⟨fun hc => ?_, fun h0 => absurd h0 hm.ne'⟩
    cases s <;> cases hc

/-- A double is below zero if it is not zero and has a minus. -/
theorem lt_zero_iff (h : parts? x = some p) :
    x < 0 ↔ p.negative = true ∧ p.significand ≠ 0 := by
  have hx : x < 0 ↔ (x.toModel.unpack.compare (0 : Float).toModel.unpack == some .lt) = true := by
    show (decide (x.toModel < (0 : Float).toModel)) = true ↔ _
    exact decide_eq_true_iff
  rw [parts?_eq] at h
  rw [hx, unpack_zero]
  cases hu : x.toModel.unpack with
  | infinity s => rw [hu] at h; cases h
  | notANumber => rw [hu] at h; cases h
  | zero s =>
    rw [hu] at h
    cases h
    exact ⟨nofun, fun h0 => absurd rfl h0.2⟩
  | finite s m e hm =>
    rw [hu] at h
    cases h
    cases s with
    | negative => exact ⟨fun _ => ⟨rfl, hm.ne'⟩, fun _ => rfl⟩
    | positive => exact ⟨nofun, fun h0 => absurd h0.1 Bool.false_ne_true⟩

/-- With a minus, only a zero is not below zero. -/
theorem significand_eq_zero (h : parts? x = some p) (hx : ¬ x < 0) (hneg : p.negative = true) :
    p.significand = 0 := by
  by_contra h0
  exact hx ((lt_zero_iff h).2 ⟨hneg, h0⟩)

theorem negative_eq_false (h : parts? x = some p) (hx : ¬ x < 0) (h0 : p.significand ≠ 0) :
    p.negative = false :=
  eq_false_of_ne_true fun hneg => h0 (significand_eq_zero h hx hneg)

end

/-! ## 3. Decimals and integers -/

/-- The shortest decimal without its sign. -/
def magnitude (p : Parts) : ℚ := if p.significand = 0 then 0 else (Shortest.ofParts p).toRat

theorem magnitude_nonneg (p : Parts) : 0 ≤ magnitude p := by
  unfold magnitude
  split
  · exact le_rfl
  · exact Decimal.toRat_nonneg _

section

variable {x : Float} {p : Parts}

theorem shortest?_eq (h : parts? x = some p) :
    shortest? x = some (if p.negative then -magnitude p else magnitude p) := by
  unfold shortest?
  rw [h]
  rfl

theorem isSome_shortest?_iff (x : Float) : (shortest? x).isSome = true ↔ x.isFinite = true := by
  unfold shortest?
  rw [Option.isSome_map, isFinite_iff]

/-- A finite double has parts. -/
theorem exists_parts? (h : x.isFinite = true) : ∃ p, parts? x = some p :=
  Option.isSome_iff_exists.1 ((isFinite_iff x).1 h)

/-- **Only a zero stands for the decimal zero.** -/
theorem shortest?_eq_zero_iff {q : ℚ} (hq : shortest? x = some q) : q = 0 ↔ (x == 0) = true := by
  obtain ⟨p, hp⟩ := exists_parts? ((isSome_shortest?_iff x).1 (Option.isSome_iff_exists.2 ⟨q, hq⟩))
  have hm : magnitude p = 0 ↔ p.significand = 0 := by
    unfold magnitude
    split
    · rename_i h0
      exact ⟨fun _ => h0, fun _ => rfl⟩
    · rename_i h0
      exact ⟨fun hz => absurd hz (Shortest.ofParts_pos h0 (regular_of_parts? hp)).ne',
        fun hz => absurd hz h0⟩
  rw [shortest?_eq hp, Option.some.injEq] at hq
  rw [beq_zero_iff hp, ← hm, ← hq]
  split
  · exact neg_eq_zero
  · exact Iff.rfl

/-- A double that is not below zero stands for a decimal that is not. -/
theorem shortest?_nonneg {q : ℚ} (hq : shortest? x = some q) (hx : ¬ x < 0) : 0 ≤ q := by
  obtain ⟨p, hp⟩ := exists_parts? ((isSome_shortest?_iff x).1 (Option.isSome_iff_exists.2 ⟨q, hq⟩))
  rw [shortest?_eq hp, Option.some.injEq] at hq
  rw [← hq]
  split
  · rename_i hneg
    rw [magnitude, if_pos (significand_eq_zero hp hx hneg), neg_zero]
  · exact magnitude_nonneg p

/-- The exact value of the parts. -/
theorem signed_eq (p : Parts) : (p.signed : ℚ) =
    if p.negative then -(p.significand : ℚ) else p.significand := by
  unfold Parts.signed
  split
  · push_cast
    rfl
  · push_cast
    rfl

/-- The integer of an integral double is its exact value. -/
theorem integer?_value (hp : parts? x = some p) {i : Int} (hi : integer? x = some i) :
    (i : ℚ) = p.signed * 2 ^ p.exponent := by
  unfold integer? at hi
  rw [hp, Option.bind_some] at hi
  split at hi
  · rename_i he
    obtain ⟨k, hk⟩ := Int.eq_ofNat_of_zero_le he
    cases hi
    rw [hk, Int.toNat_natCast, twoTo_eq, zpow_natCast]
    push_cast
    rfl
  · rename_i he
    obtain ⟨k, hk⟩ := Int.eq_ofNat_of_zero_le (show 0 ≤ -p.exponent by omega)
    simp only [hk, Int.toNat_natCast, twoTo_eq] at hi
    split at hi
    · rename_i hmod
      obtain ⟨m, hm⟩ := Nat.dvd_of_mod_eq_zero hmod
      have hdvd : ((2 ^ k : Nat) : Int) ∣ p.signed := by
        have hs : ((2 ^ k : Nat) : Int) ∣ (p.significand : Int) := Int.natCast_dvd_natCast.2 ⟨m, hm⟩
        unfold Parts.signed
        split
        · exact (Int.dvd_neg).2 hs
        · exact hs
      cases hi
      have h2 : ((2 ^ k : Nat) : ℚ) ≠ 0 := by positivity
      have he' : p.exponent = -(k : Int) := by omega
      rw [Int.tdiv_eq_ediv_of_dvd hdvd, he', zpow_neg, zpow_natCast, ← div_eq_mul_inv]
      rw [Int.cast_div hdvd (by exact_mod_cast h2)]
      push_cast
      rfl
    · cases hi

theorem exists_parts?_of_integer? {i : Int} (hi : integer? x = some i) :
    ∃ p, parts? x = some p := by
  obtain ⟨p, hp, _⟩ := Option.bind_eq_some_iff.1 hi
  exact ⟨p, hp⟩

/-- **An integral double stands for an integer**, and it keeps to its side of zero. -/
theorem exists_shortest?_of_integer? {i : Int} (hi : integer? x = some i) :
    ∃ j : Int, shortest? x = some (j : ℚ) ∧ (0 ≤ i → 0 ≤ j) := by
  obtain ⟨p, hp⟩ := exists_parts?_of_integer? hi
  have hv := integer?_value hp hi
  rw [signed_eq] at hv
  by_cases h0 : p.significand = 0
  · refine ⟨0, ?_, fun _ => le_rfl⟩
    rw [shortest?_eq hp, magnitude, if_pos h0, neg_zero, ite_self, Int.cast_zero]
  · have hpos : (0 : ℚ) < p.significand * 2 ^ p.exponent :=
      mul_pos (Nat.cast_pos.2 (Nat.pos_of_ne_zero h0)) (zpow_pos (by norm_num) _)
    have habs : (p.significand : ℚ) * 2 ^ p.exponent = i.natAbs := by
      rw [Nat.cast_natAbs, Int.cast_abs, hv]
      split
      · rw [neg_mul, abs_neg, abs_of_pos hpos]
      · rw [abs_of_pos hpos]
    obtain ⟨m, hm⟩ := Shortest.exists_ofParts_eq_natCast h0 habs
    rw [shortest?_eq hp, magnitude, if_neg h0, hm]
    cases hneg : p.negative with
    | false => exact ⟨m, by rw [if_neg (by decide)]; rfl, fun _ => by omega⟩
    | true =>
      refine ⟨-m, by rw [if_pos rfl]; push_cast; rfl, fun hi0 => ?_⟩
      rw [hneg, if_pos rfl, neg_mul] at hv
      have : (i : ℚ) < 0 := by rw [hv]; exact neg_neg_of_pos hpos
      exact absurd (Int.cast_lt_zero.1 this) (by omega)

/-- The integer of a double that is not below zero is a natural number. -/
theorem integer?_nonneg {i : Int} (hi : integer? x = some i) (hx : ¬ x < 0) : 0 ≤ i := by
  obtain ⟨p, hp⟩ := exists_parts?_of_integer? hi
  have hs : (0 : ℚ) ≤ p.signed := by
    rw [signed_eq]
    split
    · rename_i hneg
      rw [significand_eq_zero hp hx hneg, Nat.cast_zero, neg_zero]
    · exact Nat.cast_nonneg _
  have : (0 : ℚ) ≤ i := by
    rw [integer?_value hp hi]
    exact mul_nonneg hs (zpow_pos (by norm_num) _).le
  exact_mod_cast this

end

end Credal.Number.Double
