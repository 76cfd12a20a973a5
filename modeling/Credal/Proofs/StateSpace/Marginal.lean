import Credal.Proofs.Evaluation.Probability
import Credal.Proofs.StateSpace.Valuations

/-!
# Marginals

The letters of one table are among those of another, in whatever order. A state of the larger table
then restricts to the state of the smaller one with the same letters, and the mass of a state is
that of all states which restrict to it. A sentence over the smaller table has the same mass in
both.

* `TruthTable.stateLike`: the state that a valuation agrees with;
* `TruthTable.marginal`, `sum_marginal`: the marginal, which keeps the mass of every sentence over
  the smaller table;
* `length_dnf_marginal_iff`: such a sentence is true in all states of both tables or of none;
* `marginal_nonneg`, `marginal_pos`, `sum_range_marginal`: the marginal of a distribution;
* `TruthTable.spread`, `marginal_spread`: the values whose marginal is given;
* `TruthTable.IsDistribution`: distributions, in regular mode positive ones, and
  `IsDistribution.marginal`, `IsDistribution.spread`.
-/

namespace Credal

namespace TruthTable

variable {t t' : TruthTable} {S : Sentence} {K : Type*}

/-! ## 1. Restricted states -/

/-- The state that a valuation agrees with. -/
def stateLike (t : TruthTable) (v : Valuation) : Nat := (t.states.find? (t.agrees v)).getD 0

theorem stateLike_lt_agrees (t : TruthTable) (v : Valuation) :
    t.stateLike v < t.stateCount ∧ t.agrees v (t.stateLike v) = true := by
  obtain ⟨i, ⟨hi, hv⟩, -⟩ := t.existsUnique_agrees v
  unfold stateLike
  cases hfind : t.states.find? (t.agrees v) with
  | none => exact absurd hv (List.find?_eq_none.1 hfind i (mem_states.2 hi))
  | some j => exact ⟨mem_states.1 (List.mem_of_find?_eq_some hfind), List.find?_some hfind⟩

/-- No other state agrees with a valuation. -/
theorem stateLike_eq_iff {v : Valuation} {i : Nat} (hi : i < t.stateCount) :
    t.stateLike v = i ↔ t.agrees v i = true := by
  constructor
  · rintro rfl
    exact (t.stateLike_lt_agrees v).2
  · exact fun hv => (t.existsUnique_agrees v).unique (t.stateLike_lt_agrees v) ⟨hi, hv⟩

/-- Every state of the smaller table is a restriction. -/
theorem exists_agrees_of_subset (h : t.letters ⊆ t'.letters) (i : Nat) :
    ∃ j < t'.stateCount, t.agrees (t'.holdsAt j) i = true := by
  obtain ⟨j, ⟨hj, hv⟩, -⟩ := t'.existsUnique_agrees (t.holdsAt i)
  exact ⟨j, hj, agrees_iff.2 fun l hl => (agrees_iff.1 hv l (h hl)).symm⟩

/-- **A sentence is true in a state if it is true in the restriction.** -/
theorem stateLike_mem_region_iff {j : Nat} (hj : j < t'.stateCount) (hS : S.letters ⊆ t.letters) :
    t.stateLike (t'.holdsAt j) ∈ t.region S ↔ j ∈ t'.region S := by
  obtain ⟨hlt, hv⟩ := t.stateLike_lt_agrees (t'.holdsAt j)
  rw [mem_region, mem_region, holds_of_agrees hv hS]
  exact ⟨fun hi => ⟨hj, hi.2⟩, fun hj => ⟨hlt, hj.2⟩⟩

/-- **A sentence is true in all states of both tables, or in all of neither.** -/
theorem length_dnf_marginal_iff (h : t.letters ⊆ t'.letters) (hS : S.letters ⊆ t.letters) :
    (t.dnf S).length = t.stateCount ↔ (t'.dnf S).length = t'.stateCount := by
  rw [length_dnf_eq_iff, length_dnf_eq_iff]
  constructor
  · intro hall j hj
    obtain ⟨hlt, hv⟩ := t.stateLike_lt_agrees (t'.holdsAt j)
    rw [holds_of_agrees hv hS]
    exact hall _ hlt
  · intro hall i hi
    obtain ⟨j, hj, hv⟩ := exists_agrees_of_subset h i
    rw [← holds_of_agrees hv hS]
    exact hall j hj

/-! ## 2. Masses -/

section Sums

variable [AddCommMonoid K]

/-- The states of another table that restrict to a state. -/
def fiber (t t' : TruthTable) (i : Nat) : Finset Nat :=
  {j ∈ Finset.range t'.stateCount | t.agrees (t'.holdsAt j) i = true}

/-- The mass of a state: that of the states of another table which restrict to it. -/
def marginal (t t' : TruthTable) (s' : Nat → K) (i : Nat) : K := ∑ j ∈ t.fiber t' i, s' j

theorem mem_fiber {i j : Nat} :
    j ∈ t.fiber t' i ↔ j < t'.stateCount ∧ t.agrees (t'.holdsAt j) i = true := by
  rw [fiber, Finset.mem_filter, Finset.mem_range]

/-- **A sentence over the smaller table has the same mass in both.** -/
theorem sum_marginal (t' : TruthTable) (s' : Nat → K) (hS : S.letters ⊆ t.letters) :
    ∑ i ∈ t.region S, t.marginal t' s' i = ∑ j ∈ t'.region S, s' j := by
  have hlt : ∀ j ∈ t'.region S, j < t'.stateCount := fun j hj => (mem_region.1 hj).1
  have hmaps : ∀ j ∈ t'.region S, t.stateLike (t'.holdsAt j) ∈ t.region S := fun j hj =>
    (stateLike_mem_region_iff (hlt j hj) hS).2 hj
  rw [← Finset.sum_fiberwise_of_maps_to hmaps]
  refine Finset.sum_congr rfl fun i hi => Finset.sum_congr ?_ fun _ _ => rfl
  ext j
  rw [mem_fiber, Finset.mem_filter]
  constructor
  · rintro ⟨hj, hv⟩
    obtain rfl := (stateLike_eq_iff (mem_region.1 hi).1).2 hv
    exact ⟨(stateLike_mem_region_iff hj hS).1 hi, rfl⟩
  · rintro ⟨hj, rfl⟩
    exact ⟨hlt j hj, (t.stateLike_lt_agrees _).2⟩

/-- All states together have the same mass in both tables. -/
theorem sum_range_marginal (t t' : TruthTable) (s' : Nat → K) :
    ∑ i ∈ Finset.range t.stateCount, t.marginal t' s' i =
      ∑ j ∈ Finset.range t'.stateCount, s' j := by
  have hall : ∀ u : TruthTable, u.region (.value true) = Finset.range u.stateCount := fun _ =>
    region_eq_range fun _ _ => rfl
  rw [← hall t, ← hall t', sum_marginal t' s' (List.nil_subset _)]

end Sums

/-! ## 3. Distributions -/

section Order

variable [AddCommMonoid K] [PartialOrder K]

theorem marginal_nonneg [IsOrderedAddMonoid K] {s' : Nat → K} (hs : ∀ j < t'.stateCount, 0 ≤ s' j)
    (i : Nat) : 0 ≤ t.marginal t' s' i :=
  Finset.sum_nonneg fun j hj => hs j (mem_fiber.1 hj).1

/-- Positive masses have a positive marginal, as every state is a restriction. -/
theorem marginal_pos [IsOrderedCancelAddMonoid K] (h : t.letters ⊆ t'.letters) {s' : Nat → K}
    (hs : ∀ j < t'.stateCount, 0 < s' j) (i : Nat) : 0 < t.marginal t' s' i := by
  obtain ⟨j, hj, hv⟩ := exists_agrees_of_subset h i
  exact Finset.sum_pos (fun j hj => hs j (mem_fiber.1 hj).1) ⟨j, mem_fiber.2 ⟨hj, hv⟩⟩

end Order

section Spread

variable [Field K]

/-- The mass of each state shared equally among the states that restrict to it. -/
def spread (t t' : TruthTable) (s : Nat → K) (j : Nat) : K :=
  s (t.stateLike (t'.holdsAt j)) / (t.fiber t' (t.stateLike (t'.holdsAt j))).card

/-- **Any values are the marginal of their spread.** -/
theorem marginal_spread [CharZero K] (h : t.letters ⊆ t'.letters) (s : Nat → K) {i : Nat}
    (hi : i < t.stateCount) : t.marginal t' (t.spread t' s) i = s i := by
  have hshare : ∀ j ∈ t.fiber t' i, t.spread t' s j = s i / (t.fiber t' i).card := by
    intro j hj
    rw [spread, (stateLike_eq_iff hi).2 (mem_fiber.1 hj).2]
  obtain ⟨j, hj, hv⟩ := exists_agrees_of_subset h i
  have hcard : ((t.fiber t' i).card : K) ≠ 0 :=
    Nat.cast_ne_zero.2 (Finset.card_ne_zero_of_mem (mem_fiber.2 ⟨hj, hv⟩))
  rw [marginal, Finset.sum_congr rfl hshare, Finset.sum_const, nsmul_eq_mul,
    mul_div_cancel₀ _ hcard]

/-- The spread has the same total. -/
theorem sum_range_spread [CharZero K] (h : t.letters ⊆ t'.letters) (s : Nat → K) :
    ∑ j ∈ Finset.range t'.stateCount, t.spread t' s j = ∑ i ∈ Finset.range t.stateCount, s i := by
  rw [← sum_range_marginal t t']
  exact Finset.sum_congr rfl fun i hi => marginal_spread h s (Finset.mem_range.1 hi)

variable [LinearOrder K] [IsStrictOrderedRing K] {s : Nat → K}

theorem spread_nonneg (hs : ∀ i < t.stateCount, 0 ≤ s i) (j : Nat) : 0 ≤ t.spread t' s j :=
  div_nonneg (hs _ (t.stateLike_lt_agrees _).1) (Nat.cast_nonneg _)

theorem spread_pos (hs : ∀ i < t.stateCount, 0 < s i) {j : Nat} (hj : j < t'.stateCount) :
    0 < t.spread t' s j := by
  obtain ⟨hlt, hv⟩ := t.stateLike_lt_agrees (t'.holdsAt j)
  exact div_pos (hs _ hlt) (Nat.cast_pos.2 (Finset.card_pos.2 ⟨j, mem_fiber.2 ⟨hj, hv⟩⟩))

end Spread

/-! ## 4. Both modes -/

section Modes

variable [Field K] [LinearOrder K]

/-- Values of the states that are a distribution, in regular mode a positive one. -/
def IsDistribution (t : TruthTable) (regular : Bool) (s : Nat → K) : Prop :=
  (∀ i < t.stateCount, if regular then 0 < s i else 0 ≤ s i) ∧
    ∑ i ∈ Finset.range t.stateCount, s i = 1

variable [IsStrictOrderedRing K] {regular : Bool}

/-- **The marginal of a distribution is one.** -/
theorem IsDistribution.marginal (h : t.letters ⊆ t'.letters) {s' : Nat → K}
    (hs : t'.IsDistribution regular s') : t.IsDistribution regular (t.marginal t' s') := by
  refine ⟨fun i _ => ?_, (sum_range_marginal t t' s').trans hs.2⟩
  cases regular with
  | true => exact marginal_pos h hs.1 i
  | false => exact marginal_nonneg hs.1 i

/-- **The spread of a distribution is one.** -/
theorem IsDistribution.spread (h : t.letters ⊆ t'.letters) {s : Nat → K}
    (hs : t.IsDistribution regular s) : t'.IsDistribution regular (t.spread t' s) := by
  refine ⟨fun j hj => ?_, (sum_range_spread h s).trans hs.2⟩
  cases regular with
  | true => exact spread_pos hs.1 hj
  | false => exact spread_nonneg hs.1 j

end Modes

end TruthTable

end Credal
