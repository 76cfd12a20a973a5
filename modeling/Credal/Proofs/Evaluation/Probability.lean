import Credal.Exact.Enclosed
import Credal.Proofs.Evaluation.Guarded
import Credal.Proofs.Evaluation.Rationals

/-!
# Probabilities

Where the values of the states are a probability distribution, the evaluated probability of a
sentence is the mass of the states in which it is true. The short way for a sentence that is true in
all states gives the same, as all masses sum up to one.

* `TruthTable.region`: the states in which a sentence is true, as a set;
* `TruthTable.Distribution`, `uniform`, `probability`: distributions, and the mass of a sentence;
* `share_eq_probability`: both ways give the mass;
* `probability_negation`, `probability_disjunction`, `probability_mono`: the laws of probability;
* `outcome_probability`, `outcome_given`: evaluation;
* `evaluated_probabilities`: all of them together.
-/

namespace Credal

open Credal.Number

namespace TruthTable

variable {t : TruthTable} {S T : Sentence}

/-! ## 1. Regions -/

/-- The states in which a sentence is true. -/
def region (t : TruthTable) (S : Sentence) : Finset Nat :=
  {i ∈ Finset.range t.stateCount | S.holds (t.holdsAt i) = true}

theorem mem_region {i : Nat} :
    i ∈ t.region S ↔ i < t.stateCount ∧ S.holds (t.holdsAt i) = true := by
  rw [region, Finset.mem_filter, Finset.mem_range]

theorem region_subset (t : TruthTable) (S : Sentence) : t.region S ⊆ Finset.range t.stateCount :=
  Finset.filter_subset _ _

theorem region_negation (t : TruthTable) (S : Sentence) :
    t.region (.negation S) = Finset.range t.stateCount \ t.region S := by
  ext i
  rw [Finset.mem_sdiff, Finset.mem_range, mem_region, mem_region, Sentence.holds,
    Bool.not_eq_true', ← Bool.not_eq_true]
  exact ⟨fun ⟨hlt, hS⟩ => ⟨hlt, fun h => hS h.2⟩, fun ⟨hlt, h⟩ => ⟨hlt, fun hS => h ⟨hlt, hS⟩⟩⟩

theorem region_conjunction (t : TruthTable) (S T : Sentence) :
    t.region (.binary .conjunction S T) = t.region S ∩ t.region T := by
  unfold region
  rw [← Finset.filter_and]
  simp only [Sentence.holds, Connective.holds, Bool.and_eq_true]

theorem region_disjunction (t : TruthTable) (S T : Sentence) :
    t.region (.binary .disjunction S T) = t.region S ∪ t.region T := by
  unfold region
  rw [← Finset.filter_or]
  simp only [Sentence.holds, Connective.holds, Bool.or_eq_true]

theorem region_mono (t : TruthTable)
    (h : ∀ w : Valuation, S.holds w = true → T.holds w = true) : t.region S ⊆ t.region T := by
  intro i hi
  obtain ⟨hlt, hS⟩ := mem_region.1 hi
  exact mem_region.2 ⟨hlt, h _ hS⟩

theorem region_eq_range (h : ∀ i < t.stateCount, S.holds (t.holdsAt i) = true) :
    t.region S = Finset.range t.stateCount :=
  Finset.filter_true_of_mem fun i hi => h i (Finset.mem_range.1 hi)

/-! ## 2. Listed states -/

theorem dnf_nodup (t : TruthTable) (S : Sentence) : (t.dnf S).Nodup :=
  List.nodup_range.filter _

theorem toFinset_dnf (t : TruthTable) (S : Sentence) : (t.dnf S).toFinset = t.region S := by
  ext i
  rw [List.mem_toFinset, mem_dnf, mem_region]

/-- The states are listed once each, so their sum is that over the region. -/
theorem sum_dnf {K : Type*} [AddCommMonoid K] (t : TruthTable) (s : Nat → K) (S : Sentence) :
    ((t.dnf S).map s).sum = ∑ i ∈ t.region S, s i := by
  rw [← List.sum_toFinset s (t.dnf_nodup S), toFinset_dnf]

theorem length_dnf_eq_iff :
    (t.dnf S).length = t.stateCount ↔ ∀ i < t.stateCount, S.holds (t.holdsAt i) = true := by
  have hlen : t.states.length = t.stateCount := List.length_range
  rw [← hlen, dnf, List.length_filter_eq_length_iff, hlen]
  exact ⟨fun h i hi => h i (mem_states.2 hi), fun h i hi => h i (mem_states.1 hi)⟩

/-! ## 3. Distributions -/

/-- Rational values of the states that are a probability distribution. -/
structure Distribution (t : TruthTable) where
  mass : Nat → ℚ
  nonneg : ∀ i < t.stateCount, 0 ≤ mass i
  total : ∑ i ∈ Finset.range t.stateCount, mass i = 1

namespace Distribution

/-- All states have the same mass. -/
def uniform (t : TruthTable) : t.Distribution where
  mass _ := 1 / t.stateCount
  nonneg _ _ := div_nonneg zero_le_one (Nat.cast_nonneg _)
  total := by
    have hpos : (t.stateCount : ℚ) ≠ 0 := Nat.cast_ne_zero.2 (twoTo_pos t.letterCount).ne'
    rw [Finset.sum_const, Finset.card_range, nsmul_eq_mul, mul_one_div_cancel hpos]

/-- The probability of a sentence: the mass of the states in which it is true. -/
def probability (d : t.Distribution) (S : Sentence) : ℚ := ∑ i ∈ t.region S, d.mass i

variable (d : t.Distribution)

/-- **Both ways give the mass**: the sum of states, and the one for a sentence that is true in
    all of them. -/
theorem share_eq_probability (S : Sentence) : t.share d.mass S = d.probability S := by
  unfold share
  by_cases h : (t.dnf S).length = t.stateCount
  · rw [if_pos h, probability, region_eq_range (length_dnf_eq_iff.1 h), d.total]
  · rw [if_neg h, sum_dnf, probability]

theorem mass_nonneg (S : Sentence) {i : Nat} (hi : i ∈ t.region S) : 0 ≤ d.mass i :=
  d.nonneg i (mem_region.1 hi).1

theorem probability_nonneg (S : Sentence) : 0 ≤ d.probability S :=
  Finset.sum_nonneg fun _ hi => d.mass_nonneg S hi

/-- What follows is at least as probable. -/
theorem probability_mono (h : ∀ w : Valuation, S.holds w = true → T.holds w = true) :
    d.probability S ≤ d.probability T :=
  Finset.sum_le_sum_of_subset_of_nonneg (t.region_mono h) fun _ hi _ => d.mass_nonneg T hi

theorem probability_congr (h : ∀ w : Valuation, S.holds w = T.holds w) :
    d.probability S = d.probability T := by
  have hST : d.probability S ≤ d.probability T := d.probability_mono fun w hS => (h w) ▸ hS
  have hTS : d.probability T ≤ d.probability S := d.probability_mono fun w hT => (h w) ▸ hT
  exact le_antisymm hST hTS

theorem probability_negation (S : Sentence) :
    d.probability (.negation S) = 1 - d.probability S := by
  have hsum := Finset.sum_sdiff (f := d.mass) (t.region_subset S)
  rw [d.total] at hsum
  rw [probability, region_negation]
  exact eq_sub_of_add_eq hsum

theorem probability_le_one (S : Sentence) : d.probability S ≤ 1 := by
  have h := d.probability_nonneg (.negation S)
  rw [d.probability_negation] at h
  exact sub_nonneg.1 h

/-- The two regions of a disjunction count their common states twice. -/
theorem probability_disjunction (S T : Sentence) :
    d.probability (.binary .disjunction S T) =
      d.probability S + d.probability T - d.probability (.binary .conjunction S T) := by
  simp only [probability, region_disjunction, region_conjunction]
  exact eq_sub_of_add_eq Finset.sum_union_inter

/-! ## 4. Evaluation -/

variable {sys : AlgebraSystem} {v : Assignment Exact}

theorem mass_eq_probability (hv : v.Gives t d.mass) (S : Sentence) :
    v.mass (.exact sys) t S = .ok (.ofRat (d.probability S)) := by
  rw [mass_eq hv, d.share_eq_probability]

theorem outcome_probability (hv : v.Gives t d.mass) (hS : ∀ l ∈ S.letters, l ∈ t.letters) :
    (RealExpr.probability S).outcome (.exact sys) t v = .ok (.ok (.ofRat (d.probability S))) := by
  have hdeclared : (Node.real (.probability S)).Declared t v := ⟨hS, fun _ hx => nomatch hx⟩
  rw [RealExpr.outcome, unlessUndeclared_eq hdeclared, RealExpr.evaluate,
    d.mass_eq_probability hv]
  rfl

/-- A conditional probability divides by the mass of the condition. -/
theorem outcome_given (hv : v.Gives t d.mass) (hS : ∀ l ∈ S.letters, l ∈ t.letters)
    (hT : ∀ l ∈ T.letters, l ∈ t.letters) :
    (RealExpr.given S T).outcome (.exact sys) t v =
      if d.probability T = 0 then .ok (.error .divisionByZero)
      else .ok (.ok (.ofRat (d.probability (.binary .conjunction S T) / d.probability T))) := by
  have hletters : ∀ l ∈ S.letters ++ T.letters, l ∈ t.letters := fun l hl =>
    (List.mem_append.1 hl).elim (hS l) (hT l)
  have hdeclared : (Node.real (.given S T)).Declared t v := ⟨hletters, fun _ hx => nomatch hx⟩
  rw [RealExpr.outcome, unlessUndeclared_eq hdeclared, RealExpr.evaluate,
    d.mass_eq_probability hv, d.mass_eq_probability hv]
  show Except.ok ((Arithmetic.exact sys).quotient _ _) = _
  rw [Arithmetic.quotient_ofRat]
  by_cases h : d.probability T = 0
  · rw [if_pos h, if_pos h]
  · rw [if_neg h, if_neg h]

/-- **Probability expressions mean probability.** The evaluated probability of a sentence is the
    mass of its states, a conditional one the quotient of two masses and a division by zero exactly
    if the condition has none; so the laws of probability hold of what is evaluated. -/
theorem evaluated_probabilities (sys : AlgebraSystem) (hv : v.Gives t d.mass) :
    (∀ S, (∀ l ∈ S.letters, l ∈ t.letters) →
      (RealExpr.probability S).outcome (.exact sys) t v = .ok (.ok (.ofRat (d.probability S)))) ∧
    (∀ S T, (∀ l ∈ S.letters, l ∈ t.letters) → (∀ l ∈ T.letters, l ∈ t.letters) →
      (d.probability T ≠ 0 → (RealExpr.given S T).outcome (.exact sys) t v =
        .ok (.ok (.ofRat (d.probability (.binary .conjunction S T) / d.probability T)))) ∧
      ((RealExpr.given S T).outcome (.exact sys) t v = .ok (.error .divisionByZero) ↔
        d.probability T = 0)) ∧
    (∀ S, 0 ≤ d.probability S ∧ d.probability S ≤ 1 ∧
      d.probability (.negation S) = 1 - d.probability S) ∧
    (∀ S T, d.probability (.binary .disjunction S T) =
      d.probability S + d.probability T - d.probability (.binary .conjunction S T)) ∧
    (∀ S T, (∀ w : Valuation, S.holds w = true → T.holds w = true) →
      d.probability S ≤ d.probability T) ∧
    (∀ S T, (∀ w : Valuation, S.holds w = T.holds w) → d.probability S = d.probability T) := by
  refine ⟨fun S hS => d.outcome_probability hv hS, fun S T hS hT => ⟨fun h => ?_, ?_⟩, fun S => ?_,
    d.probability_disjunction, fun S T => d.probability_mono, fun S T => d.probability_congr⟩
  · rw [d.outcome_given hv hS hT, if_neg h]
  · rw [d.outcome_given hv hS hT]
    by_cases h : d.probability T = 0
    · rw [if_pos h]
      exact iff_of_true rfl h
    · rw [if_neg h]
      exact iff_of_false nofun h
  · exact ⟨d.probability_nonneg S, d.probability_le_one S, d.probability_negation S⟩

/-- One letter with two states of the same mass: it is true with probability one half, and under a
    false condition it has none. -/
theorem evaluated_probabilities_of_one_letter :
    let t : TruthTable := ⟨[⟨"P", 0⟩], List.nodup_singleton _⟩
    let v := Assignment.ofRats (uniform t).mass fun _ => 0
    v.Gives t (uniform t).mass ∧
    (RealExpr.probability (.letter ⟨"P", 0⟩)).outcome (.exact .enclosing) t v =
      .ok (.ok (.ofRat (1 / 2))) ∧
    (RealExpr.given (.letter ⟨"P", 0⟩) (.value false)).outcome (.exact .enclosing) t v =
      .ok (.error .divisionByZero) := by
  intro t v
  have hv : v.Gives t (uniform t).mass := Assignment.gives_ofRats _ _ _
  obtain ⟨hprobability, hgiven, -⟩ := (uniform t).evaluated_probabilities .enclosing hv
  have hhalf : (uniform t).probability (.letter ⟨"P", 0⟩) = 1 / 2 := by decide +kernel
  have hfalse : (uniform t).probability (.value false) = 0 := by decide +kernel
  have hP : ∀ l ∈ (Sentence.letter ⟨"P", 0⟩).letters, l ∈ t.letters := fun _ hl => hl
  have hF : ∀ l ∈ (Sentence.value false).letters, l ∈ t.letters := fun _ hl => nomatch hl
  refine ⟨hv, ?_, (hgiven _ _ hP hF).2.2 hfalse⟩
  rw [← hhalf]
  exact hprobability _ hP

end Distribution

end TruthTable

end Credal
