import Credal.Proofs.Number.Comparisons
import Credal.Proofs.Number.Integral
import Credal.Proofs.Number.Layouts

/-!
# Texts of doubles

The intervals of reals that read back as two different doubles are apart: they meet in an end at
most, and then one of the two doubles has an odd significand, so that its interval is open. The text
of a double is that of a decimal in its interval. So two doubles that are not negative have
different texts unless they are equal as numbers.

* `Shortest.high_le_low`, `Shortest.exactValue_eq_of_standsFor`: the intervals;
* `Double.spelled_plain`: the text is a decimal that stands for the double;
* `Double.beq_of_plain_eq`, `Double.plain_eq_of_beq`: **different doubles have different texts**,
  and equal ones have one.
-/

namespace Credal.Number

namespace Shortest

variable {p p' : Double.Parts}

/-! ## 1. Intervals -/

/-- The ends of two intervals, in quarters of the lesser place. -/
theorem ends_apart {s s' reach k : Nat} (hs : s < 2 ^ 53) (hlt : s < s' * 2 ^ k)
    (hreach : reach ≤ 2) (hlead : 0 < k → 2 ^ 52 ≤ s' ∧ (reach = 1 ↔ s' = 2 ^ 52)) :
    4 * s + 2 ≤ (4 * s' - reach) * 2 ^ k ∧
      (4 * s + 2 = (4 * s' - reach) * 2 ^ k → s % 2 = 1 ∨ s' % 2 = 1) := by
  cases k with
  | zero =>
    rw [pow_zero, mul_one] at hlt ⊢
    omega
  | succ k =>
    -- the greater double has a leading one, so that its place is no finer than twice the other
    obtain ⟨hone, hpower⟩ := hlead (Nat.succ_pos k)
    have htwice : (4 * s' - reach) * 2 ≤ (4 * s' - reach) * 2 ^ (k + 1) :=
      Nat.mul_le_mul_left _ (Nat.le_self_pow (Nat.succ_ne_zero k) 2)
    generalize (4 * s' - reach) * 2 ^ (k + 1) = low at htwice
    omega

/-- The form that the parts of a finite double have. -/
structure Canonical (p : Double.Parts) : Prop where
  regular : Regular p
  normal : IsNormal p
  least_le : -1074 ≤ p.exponent

theorem reachBelow_le (p : Double.Parts) : reachBelow p ≤ 2 := by
  unfold reachBelow
  split
  · exact Nat.le_succ 1
  · exact le_rfl

theorem reachBelow_eq_one_iff (he : -1074 < p.exponent) :
    reachBelow p = 1 ↔ p.significand = 2 ^ 52 := by
  unfold reachBelow
  split
  · rename_i h
    exact iff_of_true rfl h.1
  · rename_i h
    exact iff_of_false nofun fun h' => h ⟨h', he⟩

/-- **Intervals are in the order of their doubles.** If they meet, a significand is odd. -/
theorem high_le_low (hp : Canonical p) (hp' : Canonical p') (hlt : exactValue p < exactValue p') :
    ((interval p).high : ℚ) / (interval p).den ≤ (interval p').low / (interval p').den ∧
      (((interval p).high : ℚ) / (interval p).den = (interval p').low / (interval p').den →
        p.significand % 2 = 1 ∨ p'.significand % 2 = 1) := by
  -- the exponents are in the order of the values
  have hexp : p.exponent ≤ p'.exponent := by
    by_contra hless
    exact absurd hlt (not_lt.2 (Double.compare_canonical hp'.regular.significand_lt hp'.least_le
      hp.normal (not_le.1 hless)).le)
  obtain ⟨k, hk⟩ := Int.eq_ofNat_of_zero_le (sub_nonneg.2 hexp)
  have hw := quarter_pos p
  have hquarter : quarter p' = 2 ^ k * quarter p := by
    rw [quarter, quarter, ← zpow_natCast, ← zpow_add₀ two_ne_zero]
    congr 1
    omega
  have hcount : p.significand < p'.significand * 2 ^ k := by
    rw [exactValue_eq, exactValue_eq, hquarter, mul_assoc, mul_assoc,
      mul_lt_mul_iff_right₀ four_pos, ← mul_assoc, mul_lt_mul_iff_left₀ hw] at hlt
    exact_mod_cast hlt
  rw [interval_high, interval_low_eq, hquarter, ← mul_assoc]
  have hhigh : (4 * p.significand + 2 : ℚ) = (4 * p.significand + 2 : Nat) := by push_cast; rfl
  have hlow : ((4 * p'.significand - reachBelow p' : Nat) : ℚ) * 2 ^ k =
      ((4 * p'.significand - reachBelow p') * 2 ^ k : Nat) := by push_cast; rfl
  rw [hhigh, hlow, mul_le_mul_iff_left₀ hw, mul_left_inj' hw.ne', Nat.cast_le, Nat.cast_inj]
  refine ends_apart hp.regular.significand_lt hcount (reachBelow_le p') fun hpos => ?_
  have hleast : -1074 < p'.exponent := by
    have hle := hp.least_le
    omega
  exact ⟨hp'.normal.resolve_left hleast.ne', reachBelow_eq_one_iff hleast⟩

/-- What is in an interval is between its ends, and not an end if the significand is odd. -/
theorem between_of_has {r : ℚ} (h : (interval p).Has r) :
    ((interval p).low : ℚ) / (interval p).den ≤ r ∧ r ≤ (interval p).high / (interval p).den ∧
      (p.significand % 2 = 1 → ((interval p).low : ℚ) / (interval p).den < r ∧
        r < (interval p).high / (interval p).den) := by
  rw [Interval.Has, closed_eq] at h
  split at h
  · rename_i heven
    have hmod := of_decide_eq_true heven
    exact ⟨h.1, h.2, fun hodd => absurd (hmod.symm.trans hodd) Nat.zero_ne_one⟩
  · exact ⟨h.1.le, h.2.le, fun _ => h⟩

/-- No number is in the intervals of two doubles. -/
theorem not_has_of_lt (hp : Canonical p) (hp' : Canonical p')
    (hlt : exactValue p < exactValue p') {r : ℚ} (h : (interval p).Has r) :
    ¬ (interval p').Has r := by
  intro h'
  obtain ⟨hle, hmeet⟩ := high_le_low hp hp' hlt
  obtain ⟨-, hhigh, hodd⟩ := between_of_has h
  obtain ⟨hlow', -, hodd'⟩ := between_of_has h'
  rcases hmeet (le_antisymm hle (hlow'.trans hhigh)) with h1 | h1
  · exact absurd ((hodd h1).2.trans_le hle) (not_lt.2 hlow')
  · exact absurd (hle.trans_lt (hodd' h1).1) (not_lt.2 hhigh)

/-- A number stands for a double: zero for a zero, one in its interval for another. -/
def StandsFor (r : ℚ) (p : Double.Parts) : Prop :=
  if p.significand = 0 then r = 0 else (interval p).Has r

/-- **A number stands for one double** that is not negative. -/
theorem exactValue_eq_of_standsFor (hp : Canonical p) (hp' : Canonical p') {r : ℚ}
    (h : StandsFor r p) (h' : StandsFor r p') : exactValue p = exactValue p' := by
  have hzero : ∀ {q : Double.Parts}, q.significand ≠ 0 → ¬ (interval q).Has 0 := fun h0 hhas =>
    absurd (between_of_has hhas).1 (not_le.2 (interval_low_pos h0))
  unfold StandsFor at h h'
  split at h
  · rename_i h0
    split at h'
    · rename_i h0'
      rw [exactValue, exactValue, h0, h0', Nat.cast_zero, zero_mul, zero_mul]
    · rename_i h0'
      exact absurd (h ▸ h') (hzero h0')
  · rename_i h0
    split at h'
    · exact absurd (h' ▸ h) (hzero h0)
    · rcases lt_trichotomy (exactValue p) (exactValue p') with hlt | heq | hlt
      · exact absurd h' (not_has_of_lt hp hp' hlt h)
      · exact heq
      · exact absurd h (not_has_of_lt hp' hp hlt h')

/-- The exact value of a double stands for it. -/
theorem standsFor_exactValue (p : Double.Parts) : StandsFor (exactValue p) p := by
  unfold StandsFor
  split
  · rename_i h0
    rw [exactValue, h0, Nat.cast_zero, zero_mul]
  · rename_i h0
    have hlow := interval_low_lt h0
    have hhigh := interval_lt_high (p := p)
    rw [interval_value, ← exactValue_eq] at hlow hhigh
    unfold Interval.Has
    split
    · exact ⟨hlow.le, hhigh.le⟩
    · exact ⟨hlow, hhigh⟩

/-- **The parts of a double are those of its exact value.** -/
theorem eq_of_exactValue_eq (hp : Canonical p) (hp' : Canonical p')
    (h : exactValue p = exactValue p') :
    p.significand = p'.significand ∧ p.exponent = p'.exponent := by
  have hthen := Double.then_compare hp.regular.significand_lt hp.least_le hp.normal
    hp'.regular.significand_lt hp'.least_le hp'.normal
  have hvalues : compare (p.significand * 2 ^ p.exponent : ℚ)
      (p'.significand * 2 ^ p'.exponent) = .eq := compare_eq_iff_eq.2 h
  rw [hvalues, Ordering.then_eq_eq, compare_eq_iff_eq, compare_eq_iff_eq] at hthen
  exact ⟨hthen.2, hthen.1⟩

end Shortest

/-! ## 2. Doubles -/

namespace Double

open Shortest

variable {x y : Float} {p : Parts}

theorem canonical_of_parts? (hp : parts? x = some p) : Canonical p :=
  ⟨regular_of_parts? hp, isNormal_of_parts? hp, least_exponent_le hp⟩

/-- The significand of a double that is not negative is that with its sign. -/
theorem signed_eq_significand (hp : parts? x = some p) (hx : ¬ x < 0) :
    p.signed = p.significand := by
  unfold Parts.signed
  split
  · rename_i hneg
    rw [significand_eq_zero hp hx hneg]
    rfl
  · rfl

/-- The exact value of a double that is not negative. -/
theorem toRat?_eq_exactValue (hp : parts? x = some p) (hx : ¬ x < 0) :
    toRat? x = some (exactValue p) := by
  rw [toRat?, hp, Option.map_some, Parts.toRat, dyadicRat_eq, signed_eq_significand hp hx,
    exactValue, Int.cast_natCast]

/-- A zero is integral. -/
theorem significand_ne_zero_of_integer? (hp : parts? x = some p) (hi : integer? x = none) :
    p.significand ≠ 0 := by
  intro h0
  rw [integer?, hp, Option.bind_some] at hi
  split at hi
  · cases hi
  · simp only [h0, Nat.zero_mod, if_true] at hi
    cases hi

theorem spelled_natText (n : Nat) : Spelled ⟨n, 0⟩ (natText n) := by
  have hspelled : Spelled ⟨n, 0⟩ (natText n ++ []) :=
    .whole (fun c hc => isDigit_of_mem_natText hc) (natText_ne_nil n) .none
      (by rw [ofDigitChars_natText, Decimal.toRat_eq])
  rwa [List.append_nil] at hspelled

/-- **The text of a double** that is not negative is a decimal that stands for it. -/
theorem spelled_plain (hp : parts? x = some p) (hx : ¬ x < 0) :
    ∃ d, Spelled d (plain x).toList ∧ StandsFor d.toRat p := by
  cases hi : integer? x with
  | some i =>
    obtain ⟨n, rfl⟩ := Int.eq_ofNat_of_zero_le (integer?_nonneg hi hx)
    have hplain : (plain x).toList = natText n := by
      rw [plain, hi]
      show (intText n).toList = _
      rw [toList_intText, if_neg (by omega), Int.natAbs_natCast]
    have hvalue : Decimal.toRat ⟨n, 0⟩ = exactValue p := by
      have hexact := toRat?_eq_exactValue hp hx
      rw [toRat?, hp, Option.map_some, Option.some.injEq, Parts.toRat, dyadicRat_eq,
        ← integer?_value hp hi] at hexact
      rw [Decimal.toRat_eq, zpow_zero, mul_one, ← hexact]
      rfl
    refine ⟨⟨n, 0⟩, ?_, ?_⟩
    · rw [hplain]
      exact spelled_natText n
    · rw [hvalue]
      exact standsFor_exactValue p
  | none =>
    have h0 : p.significand ≠ 0 := significand_ne_zero_of_integer? hp hi
    have hneg := negative_eq_false hp hx h0
    have hregular := regular_of_parts? hp
    obtain ⟨d, hd, hvalue, -⟩ := exists_candidate h0 hregular
    have hplain : (plain x).toList = shortestLayout.text (ofParts p) := by
      rw [plain, hi]
      show (textWith _ x).toList = _
      rw [textWith, hp]
      show (String.ofList _).toList = _
      rw [String.toList_ofList, hneg, if_neg h0]
      rfl
    have hdigits : (ofParts p).digits ≠ 0 := by
      intro hzero
      have hpos := ofParts_pos h0 hregular
      rw [Decimal.toRat_eq, hzero, Nat.cast_zero, zero_mul] at hpos
      exact lt_irrefl _ hpos
    refine ⟨ofParts p, ?_, ?_⟩
    · rw [hplain]
      exact shortestLayout.spelled_text hdigits
    · rw [StandsFor, if_neg h0, hvalue]
      exact has_of_onGrid? hd

/-- **Different doubles have different texts**, unless they are negative. -/
theorem beq_of_plain_eq (hx : x.isFinite = true) (hx0 : ¬ x < 0) (hy : y.isFinite = true)
    (hy0 : ¬ y < 0) (h : plain x = plain y) : (x == y) = true := by
  obtain ⟨p, hp⟩ := exists_parts? hx
  obtain ⟨q, hq⟩ := exists_parts? hy
  obtain ⟨d, hd, hstands⟩ := spelled_plain hp hx0
  obtain ⟨d', hd', hstands'⟩ := spelled_plain hq hy0
  rw [h] at hd
  rw [hd.toRat_eq hd'] at hstands
  rw [beq_iff (toRat?_eq_exactValue hp hx0) (toRat?_eq_exactValue hq hy0)]
  exact exactValue_eq_of_standsFor (canonical_of_parts? hp) (canonical_of_parts? hq) hstands
    hstands'

/-- **Doubles that are equal as numbers have one text**, unless they are negative. -/
theorem plain_eq_of_beq (hx : x.isFinite = true) (hx0 : ¬ x < 0) (hy : y.isFinite = true)
    (hy0 : ¬ y < 0) (h : (x == y) = true) : plain x = plain y := by
  obtain ⟨p, hp⟩ := exists_parts? hx
  obtain ⟨q, hq⟩ := exists_parts? hy
  rw [beq_iff (toRat?_eq_exactValue hp hx0) (toRat?_eq_exactValue hq hy0)] at h
  obtain ⟨hsignificand, hexponent⟩ :=
    eq_of_exactValue_eq (canonical_of_parts? hp) (canonical_of_parts? hq) h
  -- the two zeros differ in their signs only, and they are integral
  have hinteger : integer? x = integer? y := by
    rw [integer?, integer?, hp, hq, Option.bind_some, Option.bind_some,
      signed_eq_significand hp hx0, signed_eq_significand hq hy0, hsignificand, hexponent]
  cases hi : integer? x with
  | some i => rw [plain, plain, ← hinteger, hi]
  | none =>
    have hparts : p = q := by
      have h0 := significand_ne_zero_of_integer? hp hi
      have h0' := significand_ne_zero_of_integer? hq (hinteger ▸ hi)
      have hneg := (negative_eq_false hp hx0 h0).trans (negative_eq_false hq hy0 h0').symm
      obtain ⟨negative, significand, exponent⟩ := p
      obtain ⟨negative', significand', exponent'⟩ := q
      exact (Parts.mk.injEq ..).mpr ⟨hneg, hsignificand, hexponent⟩
    subst hparts
    rw [plain, plain, ← hinteger, hi]
    show textWith _ x = textWith _ y
    rw [textWith, textWith, hp, hq]

end Double

end Credal.Number
