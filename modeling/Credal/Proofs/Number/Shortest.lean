import Credal.Number.Shortest
import Credal.Proofs.Number.Scaling

/-!
# Shortest decimals exist

The search for the shortest decimal tries seventeen grids and gives up after them. It never does:
the seventeenth grid is finer than the interval of reals that read back as the double, so one of
the value's two neighbours on it lies inside.

* `Shortest.onGrid?_eq_some`: what a grid offers lies in the interval;
* `Shortest.onGrid?_isSome_of_fine`: a grid finer than the interval offers a point;
* `Shortest.candidates_ne_nil`: seventeen digits suffice;
* `Shortest.ofParts_pos`: so the shortest decimal of a double other than zero is not zero;
* `Shortest.exists_ofParts_eq_natCast`: that of an integral double is an integer.
-/

namespace Credal.Number

/-! ## 1. Decimals -/

theorem Decimal.toRat_eq (d : Decimal) : d.toRat = d.digits * (10 : ℚ) ^ d.exponent := by
  have h := scaleQuotient_ratio d.digits 1 d.exponent
  rw [Nat.cast_one, div_one] at h
  show mkRat (scaleQuotient d.digits 1 d.exponent).1 (scaleQuotient d.digits 1 d.exponent).2 = _
  rw [Rat.mkRat_eq_div, Int.cast_natCast, h]

theorem Decimal.toRat_nonneg (d : Decimal) : 0 ≤ d.toRat := by
  rw [toRat_eq]
  positivity

/-- Taking zeros off changes the layout only. -/
theorem Decimal.strip_go (fuel : Nat) (d : Decimal) :
    (strip.go fuel d).toRat = d.toRat ∧ d.exponent ≤ (strip.go fuel d).exponent := by
  induction fuel generalizing d with
  | zero => exact ⟨rfl, Int.le_refl _⟩
  | succ fuel ih =>
    unfold strip.go
    split
    · rename_i h
      obtain ⟨hv, he⟩ := ih ⟨d.digits / 10, d.exponent + 1⟩
      have hten : (d.digits : ℚ) = ↑(d.digits / 10) * 10 := by
        exact_mod_cast (Nat.div_mul_cancel (Nat.dvd_of_mod_eq_zero h.2)).symm
      have he' : d.exponent + 1 ≤ _ := he
      refine ⟨?_, (Int.le_add_one (Int.le_refl _)).trans he'⟩
      rw [hv, toRat_eq, toRat_eq, hten, zpow_add_one₀ (by norm_num)]
      ring
    · exact ⟨rfl, Int.le_refl _⟩

theorem Decimal.strip_toRat (d : Decimal) : d.strip.toRat = d.toRat := (strip_go _ d).1

/-- A decimal without places after the point is a natural number. -/
theorem Decimal.exists_toRat_eq_natCast {d : Decimal} (h : 0 ≤ d.exponent) :
    ∃ n : Nat, d.toRat = n := by
  obtain ⟨k, hk⟩ := Int.eq_ofNat_of_zero_le h
  refine ⟨d.digits * 10 ^ k, ?_⟩
  rw [toRat_eq, hk, zpow_natCast]
  push_cast
  rfl

/-! ## 2. Points of a grid -/

namespace Shortest

variable {i : Interval}

theorem Interval.holds_of_between {n d : Nat} (hi : 0 < i.den) (hd : 0 < d)
    (hlow : (i.low : ℚ) / i.den < n / d) (hhigh : (n : ℚ) / d < i.high / i.den) :
    i.holds n d = true := by
  have hi' : (0 : ℚ) < i.den := Nat.cast_pos.2 hi
  have hd' : (0 : ℚ) < d := Nat.cast_pos.2 hd
  have h1 : i.low * d < n * i.den := by exact_mod_cast (div_lt_div_iff₀ hi' hd').1 hlow
  have h2 : n * i.den < i.high * d := by exact_mod_cast (div_lt_div_iff₀ hd' hi').1 hhigh
  unfold Interval.holds
  split
  · simp only [Bool.and_eq_true, decide_eq_true_eq]
    exact ⟨h1.le, h2.le⟩
  · simp only [Bool.and_eq_true, decide_eq_true_eq]
    exact ⟨h1, h2⟩

theorem Interval.low_le_of_holds {n d : Nat} (hi : 0 < i.den) (hd : 0 < d)
    (h : i.holds n d = true) : (i.low : ℚ) / i.den ≤ n / d := by
  rw [div_le_div_iff₀ (Nat.cast_pos.2 hi) (Nat.cast_pos.2 hd)]
  unfold Interval.holds at h
  split at h
  · simp only [Bool.and_eq_true, decide_eq_true_eq] at h
    exact_mod_cast h.1
  · simp only [Bool.and_eq_true, decide_eq_true_eq] at h
    exact_mod_cast h.1.le

/-- Whether a multiple of `10 ^ grid` lies in the interval. -/
def inside (i : Interval) (grid : Int) (k : Nat) : Bool :=
  i.holds (scaleQuotient k 1 grid).1 (scaleQuotient k 1 grid).2

theorem ratio_multiple (k : Nat) (grid : Int) :
    ((scaleQuotient k 1 grid).1 : ℚ) / (scaleQuotient k 1 grid).2 = k * 10 ^ grid := by
  rw [scaleQuotient_ratio, Nat.cast_one, div_one]

theorem inside_of_between {grid : Int} {k : Nat} (hi : 0 < i.den)
    (hlow : (i.low : ℚ) / i.den < k * 10 ^ grid) (hhigh : k * 10 ^ grid < (i.high : ℚ) / i.den) :
    inside i grid k = true := by
  rw [← ratio_multiple] at hlow hhigh
  exact Interval.holds_of_between hi (scaleQuotient_pos Nat.one_pos _) hlow hhigh

/-- The multiple of `10 ^ grid` below the value. -/
def below (i : Interval) (grid : Int) : Nat :=
  (scaleQuotient i.value i.den (-grid)).1 / (scaleQuotient i.value i.den (-grid)).2

theorem halfEven_cases (num den : Nat) :
    halfEven num den = num / den ∨ halfEven num den = num / den + 1 := by
  unfold halfEven
  simp only
  split
  · exact Or.inl rfl
  · split
    · exact Or.inr rfl
    · omega

/-- What a grid offers is one of the value's two neighbours, and it lies in the interval. -/
theorem onGrid?_eq_some {grid : Int} {d : Decimal} (h : onGrid? i grid = some d) :
    d.exponent = grid ∧ inside i grid d.digits = true := by
  have hnear := halfEven_cases (scaleQuotient i.value i.den (-grid)).1
    (scaleQuotient i.value i.den (-grid)).2
  unfold onGrid? at h
  simp only at h
  split at h
  · rename_i h1 h2
    cases h
    refine ⟨rfl, ?_⟩
    rcases hnear with e | e
    · show inside i grid (halfEven _ _) = true
      rw [e]
      exact h1
    · show inside i grid (halfEven _ _) = true
      rw [e]
      exact h2
  · rename_i h1 _
    cases h
    exact ⟨rfl, h1⟩
  · rename_i _ h2
    cases h
    exact ⟨rfl, h2⟩
  · cases h

theorem onGrid?_isSome {grid : Int}
    (h : inside i grid (below i grid) = true ∨ inside i grid (below i grid + 1) = true) :
    (onGrid? i grid).isSome = true := by
  unfold onGrid?
  simp only
  split
  · rfl
  · rfl
  · rfl
  · rename_i h1 h2
    rcases h with h | h
    · exact absurd (h.symm.trans h1) (by decide)
    · exact absurd (h.symm.trans h2) (by decide)

theorem below_le (hi : 0 < i.den) (grid : Int) :
    (below i grid : ℚ) * 10 ^ grid ≤ i.value / i.den := by
  have hg : (0 : ℚ) < 10 ^ grid := zpow_pos (by norm_num) _
  have hd : (0 : ℚ) < (scaleQuotient i.value i.den (-grid)).2 :=
    Nat.cast_pos.2 (scaleQuotient_pos hi _)
  have h : (below i grid : ℚ) ≤ i.value / i.den * 10 ^ (-grid) := by
    rw [← scaleQuotient_ratio]
    exact Nat.cast_div_le
  rw [zpow_neg, ← div_eq_mul_inv, le_div_iff₀ hg] at h
  exact h

theorem lt_below_add_one (hi : 0 < i.den) (grid : Int) :
    (i.value : ℚ) / i.den < (below i grid + 1) * 10 ^ grid := by
  have hg : (0 : ℚ) < 10 ^ grid := zpow_pos (by norm_num) _
  have hd := @scaleQuotient_pos i.value _ hi (-grid)
  have h : (i.value : ℚ) / i.den * 10 ^ (-grid) < below i grid + 1 := by
    rw [← scaleQuotient_ratio, div_lt_iff₀ (Nat.cast_pos.2 hd)]
    rw [mul_comm]
    exact_mod_cast Nat.lt_mul_div_succ _ hd
  rw [zpow_neg, ← div_eq_mul_inv, div_lt_iff₀ hg] at h
  exact h

/-- A grid finer than the interval has a point in it next to the value. -/
theorem onGrid?_isSome_of_fine (hi : 0 < i.den) {grid : Int}
    (hlow : (i.low : ℚ) / i.den < i.value / i.den) (hhigh : (i.value : ℚ) / i.den < i.high / i.den)
    (hfine : (10 : ℚ) ^ grid < i.high / i.den - i.low / i.den) :
    (onGrid? i grid).isSome = true := by
  have h1 := below_le hi grid
  have h2 := lt_below_add_one hi grid
  refine onGrid?_isSome ?_
  by_cases hb : (i.low : ℚ) / i.den < below i grid * 10 ^ grid
  · exact Or.inl (inside_of_between hi hb (by linarith))
  · refine Or.inr (inside_of_between hi ?_ ?_)
    · push_cast
      linarith
    · push_cast
      linarith

/-- A value on the grid is offered. -/
theorem onGrid?_isSome_of_eq (hi : 0 < i.den) {grid : Int} {k : Nat}
    (hlow : (i.low : ℚ) / i.den < i.value / i.den) (hhigh : (i.value : ℚ) / i.den < i.high / i.den)
    (hk : (i.value : ℚ) / i.den = k * 10 ^ grid) : (onGrid? i grid).isSome = true := by
  have hg : (0 : ℚ) < 10 ^ grid := zpow_pos (by norm_num) _
  have h1 := below_le hi grid
  have h2 := lt_below_add_one hi grid
  rw [hk] at h1 h2 hlow hhigh
  have h1' : below i grid ≤ k := by exact_mod_cast le_of_mul_le_mul_right h1 hg
  have h2' : k < below i grid + 1 := by exact_mod_cast lt_of_mul_lt_mul_right h2 hg.le
  have e : below i grid = k := by omega
  refine onGrid?_isSome (Or.inl ?_)
  rw [e]
  exact inside_of_between hi hlow hhigh

/-! ## 3. The interval of a double -/

section Parts

variable (p : Double.Parts)

theorem interval_den_pos : 0 < (interval p).den := shiftQuotient_pos Nat.one_pos _

/-- A quarter of the last place of a double. -/
def quarter : ℚ := 2 ^ (p.exponent - 2)

theorem quarter_pos : 0 < quarter p := zpow_pos (by norm_num) _

theorem quarter_eq : ((shiftQuotient 1 1 (p.exponent - 2)).1 : ℚ) /
    (shiftQuotient 1 1 (p.exponent - 2)).2 = quarter p := by
  rw [shiftQuotient_ratio, Nat.cast_one, div_one, one_mul, quarter]

theorem interval_value :
    ((interval p).value : ℚ) / (interval p).den = 4 * p.significand * quarter p := by
  rw [← quarter_eq, ← mul_div_assoc]
  congr 1
  exact_mod_cast rfl

theorem interval_high : ((interval p).high : ℚ) / (interval p).den =
    (4 * p.significand + 2) * quarter p := by
  rw [← quarter_eq, ← mul_div_assoc]
  congr 1
  exact_mod_cast rfl

variable {p}

/-- How many quarters of a place the lower end is below the value: fewer below a power of two. -/
def reachBelow (p : Double.Parts) : Nat :=
  if p.significand = 2 ^ 52 ∧ -1074 < p.exponent then 1 else 2

theorem interval_low_eq (p : Double.Parts) : ((interval p).low : ℚ) / (interval p).den =
    (4 * p.significand - reachBelow p : Nat) * quarter p := by
  have hlow : (interval p).low =
      (4 * p.significand - reachBelow p) * (shiftQuotient 1 1 (p.exponent - 2)).1 := rfl
  have hden : (interval p).den = (shiftQuotient 1 1 (p.exponent - 2)).2 := rfl
  rw [hlow, hden, Nat.cast_mul, mul_div_assoc, quarter_eq]

/-- The lower end is half a place below the value, or a quarter below a power of two. -/
theorem interval_low (h : p.significand ≠ 0) :
    ((interval p).low : ℚ) / (interval p).den = (4 * p.significand - 2) * quarter p ∨
      p.significand = 2 ^ 52 ∧
        ((interval p).low : ℚ) / (interval p).den = (4 * p.significand - 1) * quarter p := by
  rw [interval_low_eq, reachBelow]
  split
  · rename_i hp
    refine Or.inr ⟨hp.1, ?_⟩
    rw [Nat.cast_sub (by omega)]
    push_cast
    rfl
  · refine Or.inl ?_
    rw [Nat.cast_sub (by omega)]
    push_cast
    rfl

theorem interval_low_pos (h : p.significand ≠ 0) :
    0 < ((interval p).low : ℚ) / (interval p).den := by
  have hw := quarter_pos p
  have hm : (1 : ℚ) ≤ p.significand := by exact_mod_cast Nat.one_le_iff_ne_zero.2 h
  rcases interval_low h with e | ⟨_, e⟩
  · rw [e]
    exact mul_pos (by linarith) hw
  · rw [e]
    exact mul_pos (by linarith) hw

theorem interval_low_lt (h : p.significand ≠ 0) :
    ((interval p).low : ℚ) / (interval p).den < (interval p).value / (interval p).den := by
  have hw := quarter_pos p
  rw [interval_value]
  rcases interval_low h with e | ⟨_, e⟩
  · rw [e]
    exact mul_lt_mul_of_pos_right (by linarith) hw
  · rw [e]
    exact mul_lt_mul_of_pos_right (by linarith) hw

theorem interval_lt_high :
    ((interval p).value : ℚ) / (interval p).den < (interval p).high / (interval p).den := by
  rw [interval_value, interval_high]
  exact mul_lt_mul_of_pos_right (by linarith) (quarter_pos p)

/-- Sixteen digits after the leading one reach into the interval. -/
theorem interval_width (h : p.significand ≠ 0) (hb : p.significand < 2 ^ 53) :
    ((interval p).value : ℚ) / (interval p).den <
      10 ^ 16 * ((interval p).high / (interval p).den - (interval p).low / (interval p).den) := by
  have hw := quarter_pos p
  rw [interval_value, interval_high]
  rcases interval_low h with e | ⟨hm, e⟩
  · have hm : (p.significand : ℚ) < 2 ^ 53 := by exact_mod_cast hb
    rw [e, ← sub_mul, ← mul_assoc]
    exact mul_lt_mul_of_pos_right (by linarith) hw
  · rw [e, ← sub_mul, ← mul_assoc, hm]
    push_cast
    exact mul_lt_mul_of_pos_right (by norm_num) hw

end Parts

/-! ## 4. The shortest decimal -/

/-- The parts that a finite double has. -/
structure Regular (p : Double.Parts) : Prop where
  significand_lt : p.significand < 2 ^ 53
  exponent_le : p.exponent ≤ 971

variable {p : Double.Parts}

/-- The decimals that are tried, the shortest first. -/
def candidates (p : Double.Parts) : List Decimal :=
  (List.range 17).filterMap fun (k : Nat) =>
    onGrid? (interval p) (decimalExponent (interval p).value (interval p).den - k)

theorem ofParts_eq (p : Double.Parts) :
    ofParts p = ((candidates p).head?.getD ⟨(interval p).value / (interval p).den, 0⟩).strip := rfl

theorem value_pos (h : p.significand ≠ 0) : 0 < (interval p).value := by
  have hw := quarter_pos p
  have hm : (0 : ℚ) < p.significand := by exact_mod_cast Nat.pos_of_ne_zero h
  have hv : (0 : ℚ) < (interval p).value / (interval p).den := by
    rw [interval_value]
    positivity
  have hd : (0 : ℚ) < (interval p).den := Nat.cast_pos.2 (interval_den_pos p)
  exact_mod_cast (div_pos_iff_of_pos_right hd).1 hv

/-- The binary exponent of a double is that of the format at most. -/
theorem binaryExponent_le (h : p.significand ≠ 0) (hp : Regular p) :
    binaryExponent (interval p).value (interval p).den ≤ 2000 := by
  have hle := two_zpow_binaryExponent_le (value_pos h) (interval_den_pos p)
  have hm : (p.significand : ℚ) < 2 ^ (53 : Int) := by exact_mod_cast hp.significand_lt
  have hlt : ((interval p).value : ℚ) / (interval p).den < 2 ^ (p.exponent + 53) := by
    calc ((interval p).value : ℚ) / (interval p).den
        = p.significand * (2 ^ (2 : Int) * quarter p) := by
          rw [interval_value]
          ring
      _ = p.significand * 2 ^ p.exponent := by
          rw [quarter, ← zpow_add₀ (by norm_num), add_sub_cancel]
      _ < 2 ^ (53 : Int) * 2 ^ p.exponent := mul_lt_mul_of_pos_right hm (zpow_pos (by norm_num) _)
      _ = 2 ^ (p.exponent + 53) := by rw [← zpow_add₀ (by norm_num), add_comm]
  have hexp := (zpow_lt_zpow_iff_right₀ (by norm_num)).1 (hle.trans_lt hlt)
  have := hp.exponent_le
  omega

/-- Seventeen digits suffice. -/
theorem candidates_ne_nil (h : p.significand ≠ 0) (hp : Regular p) : candidates p ≠ [] := by
  have hlead := ten_zpow_decimalExponent_le (value_pos h) (interval_den_pos p)
    (binaryExponent_le h hp)
  have hfine : (10 : ℚ) ^ (decimalExponent (interval p).value (interval p).den - (16 : Nat)) <
      (interval p).high / (interval p).den - (interval p).low / (interval p).den := by
    have hw := interval_width h hp.significand_lt
    rw [zpow_sub₀ (by norm_num), div_lt_iff₀ (by norm_num)]
    calc _ ≤ _ := hlead
      _ < _ := hw
      _ = _ := by rw [mul_comm]; norm_num
  have hsome := onGrid?_isSome_of_fine (interval_den_pos p) (interval_low_lt h) interval_lt_high
    hfine
  obtain ⟨d, hd⟩ := Option.isSome_iff_exists.1 hsome
  exact List.ne_nil_of_mem (List.mem_filterMap.2 ⟨16, by decide, hd⟩)

theorem inside_low_le {i : Interval} (hi : 0 < i.den) {grid : Int} {d : Decimal}
    (h : onGrid? i grid = some d) : (i.low : ℚ) / i.den ≤ d.toRat := by
  obtain ⟨he, hin⟩ := onGrid?_eq_some h
  rw [Decimal.toRat_eq, he, ← ratio_multiple]
  exact Interval.low_le_of_holds hi (scaleQuotient_pos Nat.one_pos _) hin

/-- **A double other than zero has a shortest decimal other than zero.** -/
theorem ofParts_pos (h : p.significand ≠ 0) (hp : Regular p) : 0 < (ofParts p).toRat := by
  obtain ⟨d, rest, hc⟩ := List.exists_cons_of_ne_nil (candidates_ne_nil h hp)
  have hmem : d ∈ candidates p := hc ▸ List.mem_cons_self
  obtain ⟨k, _, hk⟩ := List.mem_filterMap.1 hmem
  rw [ofParts_eq, hc, List.head?_cons, Option.getD_some, Decimal.strip_toRat]
  exact (interval_low_pos h).trans_le (inside_low_le (interval_den_pos p) hk)

theorem onGrid?_candidate {d : Decimal} (h : d ∈ candidates p) :
    ∃ k : Nat, k < 17 ∧
      d.exponent = decimalExponent (interval p).value (interval p).den - k := by
  obtain ⟨k, hk, hd⟩ := List.mem_filterMap.1 h
  exact ⟨k, List.mem_range.1 hk, (onGrid?_eq_some hd).1⟩

/-- Of the candidates the first is the one on the coarsest grid. -/
theorem candidates_pairwise (p : Double.Parts) :
    (candidates p).Pairwise fun a b => b.exponent ≤ a.exponent := by
  refine List.pairwise_filterMap.2 (List.pairwise_lt_range.imp ?_)
  intro k l hkl a ha b hb
  rw [(onGrid?_eq_some ha).1, (onGrid?_eq_some hb).1]
  omega

/-- The shortest decimal of an integral double has no places after the point. -/
theorem candidates_head_exponent {n : Nat} (h : p.significand ≠ 0)
    (hn : (p.significand : ℚ) * 2 ^ p.exponent = n) :
    0 ≤ ((candidates p).head?.getD ⟨(interval p).value / (interval p).den, 0⟩).exponent := by
  have hvalue : ((interval p).value : ℚ) / (interval p).den = n * 10 ^ (0 : Int) := by
    rw [zpow_zero, mul_one, ← hn, interval_value, quarter, zpow_sub₀ (by norm_num)]
    ring
  have hlead : 0 ≤ decimalExponent (interval p).value (interval p).den := by
    have hd : (0 : ℚ) < (interval p).den := Nat.cast_pos.2 (interval_den_pos p)
    have hpos := div_pos (Nat.cast_pos.2 (value_pos h)) hd
    rw [hvalue, zpow_zero, mul_one] at hpos
    have hone : (1 : ℚ) ≤ (interval p).value / (interval p).den := by
      rw [hvalue, zpow_zero, mul_one]
      exact_mod_cast Nat.cast_pos.1 hpos
    rw [one_le_div hd] at hone
    exact decimalExponent_nonneg (interval_den_pos p) (by exact_mod_cast hone)
  cases hc : candidates p with
  | nil => exact Int.le_refl 0
  | cons d rest =>
    rw [List.head?_cons, Option.getD_some]
    obtain ⟨k, hk, he⟩ := onGrid?_candidate (hc ▸ List.mem_cons_self : d ∈ candidates p)
    by_cases hlong : decimalExponent (interval p).value (interval p).den ≤ 16
    · -- the value itself stands on the grid of the integers, which is among the first seventeen
      obtain ⟨l, hl⟩ := Int.eq_ofNat_of_zero_le hlead
      obtain ⟨c, hgrid⟩ := Option.isSome_iff_exists.1
        (onGrid?_isSome_of_eq (interval_den_pos p) (interval_low_lt h) interval_lt_high hvalue)
      have hmem : c ∈ candidates p := by
        refine List.mem_filterMap.2 ⟨l, List.mem_range.2 (by omega), ?_⟩
        rw [hl, sub_self]
        exact hgrid
      have hzero := (onGrid?_eq_some hgrid).1
      rw [hc] at hmem
      rcases List.mem_cons.1 hmem with rfl | hmem
      · exact hzero.ge
      · have hpair := candidates_pairwise p
        rw [hc] at hpair
        exact hzero ▸ (List.pairwise_cons.1 hpair).1 c hmem
    · omega

theorem exists_ofParts_eq_natCast {n : Nat} (h : p.significand ≠ 0)
    (hn : (p.significand : ℚ) * 2 ^ p.exponent = n) : ∃ m : Nat, (ofParts p).toRat = m := by
  rw [ofParts_eq, Decimal.strip_toRat]
  exact Decimal.exists_toRat_eq_natCast (candidates_head_exponent h hn)

end Shortest

end Credal.Number
