import Credal.Proofs.Number.Rounded

/-!
# Comparisons of doubles

Doubles are compared by their signs, their exponents and then their significands. In the form of the
format this is the order of their exact values.

* `then_compare`: exponents and significands;
* `Holds.compare_eq`: unpacked doubles;
* `lt_iff`, `le_iff`, `beq_iff`: doubles with exact values;
* `nonneg_or_isNaN`: doubles that are not below zero.
-/

namespace Credal.Number.Double

open Float.Model Float.Model.UnpackedFloat

variable {x y : Float} {a b : ℚ} {u u' : UnpackedFloat}

/-- In the form of the format the larger exponent, or else the larger significand, decides. -/
theorem compare_canonical {m m' : Nat} {e e' : Int} (hlt : m < 2 ^ 53) (he : -1074 ≤ e)
    (hlead' : e' = -1074 ∨ 2 ^ 52 ≤ m') (hless : e < e') : (m * 2 ^ e : ℚ) < m' * 2 ^ e' := by
  have hm : (m : ℚ) < 2 ^ 53 := by exact_mod_cast hlt
  have hm' : (2 : ℚ) ^ 52 ≤ m' := by exact_mod_cast hlead'.resolve_left (by omega)
  have hpos : (0 : ℚ) < 2 ^ e := zpow_pos two_pos e
  calc (m * 2 ^ e : ℚ) < 2 ^ 53 * 2 ^ e := mul_lt_mul_of_pos_right hm hpos
    _ = 2 ^ 52 * 2 ^ (e + 1) := by rw [zpow_add_one₀ two_ne_zero]; ring
    _ ≤ m' * 2 ^ e' := mul_le_mul hm' (zpow_le_zpow_right₀ one_le_two hless)
        (zpow_nonneg zero_le_two _) (Nat.cast_nonneg m')

theorem then_compare {m m' : Nat} {e e' : Int} (hlt : m < 2 ^ 53) (he : -1074 ≤ e)
    (hlead : e = -1074 ∨ 2 ^ 52 ≤ m) (hlt' : m' < 2 ^ 53) (he' : -1074 ≤ e')
    (hlead' : e' = -1074 ∨ 2 ^ 52 ≤ m') :
    (compare e e').then (compare m m') = compare (m * 2 ^ e : ℚ) (m' * 2 ^ e') := by
  rcases lt_trichotomy e e' with h | rfl | h
  · rw [compare_lt_iff_lt.2 h, compare_lt_iff_lt.2 (compare_canonical hlt he hlead' h)]
    rfl
  · have hpos : (0 : ℚ) < 2 ^ e := zpow_pos two_pos e
    rw [compare_eq_iff_eq.2 rfl]
    show compare m m' = _
    rcases lt_trichotomy m m' with h | rfl | h
    · rw [compare_lt_iff_lt.2 h, compare_lt_iff_lt.2]
      exact mul_lt_mul_of_pos_right (Nat.cast_lt.2 h) hpos
    · rw [compare_eq_iff_eq.2 rfl, compare_eq_iff_eq.2 rfl]
    · rw [compare_gt_iff_gt.2 h, compare_gt_iff_gt.2]
      exact mul_lt_mul_of_pos_right (Nat.cast_lt.2 h) hpos
  · rw [compare_gt_iff_gt.2 h, compare_gt_iff_gt.2 (compare_canonical hlt' he' hlead h)]
    rfl

theorem compare_neg_neg (a b : ℚ) : compare (-a) (-b) = (compare a b).swap := by
  rcases lt_trichotomy a b with h | rfl | h
  · rw [compare_lt_iff_lt.2 h, compare_gt_iff_gt.2 (neg_lt_neg h)]
    rfl
  · rw [compare_eq_iff_eq.2 rfl, compare_eq_iff_eq.2 rfl]
    rfl
  · rw [compare_gt_iff_gt.2 h, compare_lt_iff_lt.2 (neg_lt_neg h)]
    rfl

/-- **Comparing** unpacked doubles. -/
theorem Holds.compare_eq (h : Holds u a) (h' : Holds u' b) :
    u.compare u' = some (compare a b) := by
  have hpos : ∀ {m : Nat} (e : Int), 0 < m → (0 : ℚ) < m * 2 ^ e := fun e hm =>
    mul_pos (Nat.cast_pos.2 hm) (zpow_pos two_pos e)
  have hpositive : ∀ (m : Nat) (e : Int),
      ((Sign.positive.apply m : Int) : ℚ) * 2 ^ e = m * 2 ^ e := fun _ _ => rfl
  have hnegative : ∀ (m : Nat) (e : Int),
      ((Sign.negative.apply m : Int) : ℚ) * 2 ^ e = -(m * 2 ^ e) := fun m e => by
    rw [← neg_mul]
    exact congrArg (· * (2 : ℚ) ^ e) (Int.cast_neg _)
  cases h with
  | zero s =>
    cases h' with
    | zero s' => rfl
    | @finite s' m' e' hm' hlt' he' hlead' =>
      cases s' with
      | negative =>
        rw [hnegative, compare_gt_iff_gt.2 (neg_lt_zero.2 (hpos e' hm'))]
        rfl
      | positive =>
        rw [hpositive, compare_lt_iff_lt.2 (hpos e' hm')]
        rfl
  | @finite s m e hm hlt he hlead =>
    cases h' with
    | zero s' =>
      cases s with
      | negative =>
        rw [hnegative, compare_lt_iff_lt.2 (neg_lt_zero.2 (hpos e hm))]
        rfl
      | positive =>
        rw [hpositive, compare_gt_iff_gt.2 (hpos e hm)]
        rfl
    | @finite s' m' e' hm' hlt' he' hlead' =>
      have hthen := then_compare hlt he hlead hlt' he' hlead'
      cases s with
      | negative =>
        cases s' with
        | negative =>
          rw [hnegative, hnegative, compare_neg_neg, ← hthen]
          rfl
        | positive =>
          rw [hnegative, hpositive,
            compare_lt_iff_lt.2 ((neg_lt_zero.2 (hpos e hm)).trans (hpos e' hm'))]
          rfl
      | positive =>
        cases s' with
        | negative =>
          rw [hnegative, hpositive,
            compare_gt_iff_gt.2 ((neg_lt_zero.2 (hpos e' hm')).trans (hpos e hm))]
          rfl
        | positive =>
          rw [hpositive, hpositive, ← hthen]
          rfl

theorem lt_iff_compare :
    x < y ↔ (x.toModel.unpack.compare y.toModel.unpack == some .lt) = true := by
  show decide (x.toModel < y.toModel) = true ↔ _
  exact decide_eq_true_iff

theorem le_iff_compare :
    x ≤ y ↔ (x.toModel.unpack.compare y.toModel.unpack).any (·.isLE) = true := by
  show decide (x.toModel ≤ y.toModel) = true ↔ _
  exact decide_eq_true_iff

theorem lt_iff (hx : toRat? x = some a) (hy : toRat? y = some b) : x < y ↔ a < b := by
  have hcompare := (toRat?_eq_some_iff.1 hx).compare_eq (toRat?_eq_some_iff.1 hy)
  rw [lt_iff_compare, hcompare, beq_iff_eq, Option.some.injEq, compare_lt_iff_lt]

theorem le_iff (hx : toRat? x = some a) (hy : toRat? y = some b) : x ≤ y ↔ a ≤ b := by
  have hcompare := (toRat?_eq_some_iff.1 hx).compare_eq (toRat?_eq_some_iff.1 hy)
  rw [le_iff_compare, hcompare, Option.any_some]
  exact Ordering.isLE_iff_ne_gt.trans compare_le_iff_le

theorem beq_iff (hx : toRat? x = some a) (hy : toRat? y = some b) : (x == y) = true ↔ a = b := by
  have hcompare := (toRat?_eq_some_iff.1 hx).compare_eq (toRat?_eq_some_iff.1 hy)
  have hbeq : (x == y) = (x.toModel.unpack.compare y.toModel.unpack == some .eq) := rfl
  rw [hbeq, hcompare, beq_iff_eq, Option.some.injEq, compare_eq_iff_eq]

/-- A double that is not below zero is at least zero, or not a number. -/
theorem nonneg_or_isNaN (h : ¬ x < 0) : 0 ≤ x ∨ x.isNaN = true := by
  have hnan : x.isNaN = x.toModel.unpack.isNaN := rfl
  rw [lt_iff_compare] at h
  rw [le_iff_compare, hnan]
  cases hu : x.toModel.unpack with
  | notANumber => exact .inr rfl
  | infinity s =>
    rw [hu] at h
    cases s with
    | negative => exact absurd rfl h
    | positive => exact .inl rfl
  | zero s => exact .inl rfl
  | finite s m e hm =>
    rw [hu] at h
    cases s with
    | negative => exact absurd rfl h
    | positive => exact .inl rfl

end Credal.Number.Double
