import Credal.Proofs.Evaluation.Probability
import Credal.Proofs.StateSpace.Marginal
import Credal.Translation.Axioms

/-!
# Regular mode

In regular mode every state has a positive value. As every valuation of the letters is a state, a
sentence that can be true then has a positive probability, one that cannot be false has the
probability one, and a condition divides by zero only if it cannot be true.

* `Constraint.outcome_compare`: a comparison of rational values;
* `TruthTable.axioms_hold_iff`: the axioms hold if the values of the states are a distribution, in
  regular mode a positive one;
* `region_nonempty_iff`: a sentence is true in some state if it is true under some valuation;
* `probability_pos_iff`, `probability_eq_one_iff`: the probabilities zero and one;
* `regular_probabilities`: what is evaluated.
-/

namespace Credal

open Credal.Number

/-! ## 1. The axioms -/

section Axioms

variable {sys : AlgebraSystem} {t : TruthTable} {v : Assignment Exact} {s : Nat → ℚ}

/-- A comparison of expressions that come to rational numbers. -/
theorem Constraint.outcome_compare (r : Relation) {a b : RealExpr} {x y : ℚ}
    (hdeclared : (Node.constraint (.compare r a b)).Declared t v)
    (ha : a.evaluate (.exact sys) t v = .ok (.ok (.ofRat x)))
    (hb : b.evaluate (.exact sys) t v = .ok (.ok (.ofRat y))) :
    (Constraint.compare r a b).outcome (.exact sys) t v = .ok (.ok (r.holdsFor x y)) := by
  rw [outcome, unlessUndeclared_eq hdeclared, evaluate, ha, hb, ← Arithmetic.compare_ofRat]
  rfl

/-- A sum of states compared with a number. -/
theorem Constraint.outcome_compare_stateSum (hv : v.Gives t s) (r : Relation) {is : List Int}
    (his : ∀ i ∈ is, 0 ≤ i ∧ i < t.stateCount) {x : Float} {q : ℚ}
    (hx : Exact.ofDouble x = .ofRat q) :
    (Constraint.compare r (.stateSum is) (.literal x)).outcome (.exact sys) t v =
      .ok (.ok (r.holdsFor (is.map fun i => s i.toNat).sum q)) := by
  have hdeclared : (Node.constraint (.compare r (.stateSum is) (.literal x))).Declared t v :=
    ⟨List.forall_mem_nil _, List.forall_mem_nil _⟩
  refine outcome_compare r hdeclared ?_ ?_
  · rw [RealExpr.evaluate, Assignment.sum_ofRat hv his]
    rfl
  · rw [← hx]
    rfl

namespace TruthTable

/-- **The axioms hold if the values of the states are a distribution**, in regular mode a positive
    one. -/
theorem axioms_hold_iff (hv : v.Gives t s) (regular : Bool) :
    (∀ c ∈ probabilityAxioms t regular, c.outcome (.exact sys) t v = .ok (.ok true)) ↔
      t.IsDistribution regular s := by
  have hsingle : ∀ i < t.stateCount, ∀ j ∈ [(i : Int)], 0 ≤ j ∧ j < t.stateCount := by
    intro i hi j hj
    obtain rfl := List.mem_singleton.1 hj
    omega
  have hall : ∀ j ∈ t.states.map fun (i : Nat) => (i : Int), 0 ≤ j ∧ j < t.stateCount := by
    intro j hj
    obtain ⟨i, hi, rfl⟩ := List.mem_map.1 hj
    have := mem_states.1 hi
    omega
  rw [probabilityAxioms, List.forall_mem_append, List.forall_mem_map, List.forall_mem_singleton,
    IsDistribution, Constraint.outcome_compare_stateSum hv .equal hall Exact.ofDouble_one,
    List.map_map]
  refine and_congr (forall_congr' fun i => imp_congr_ctx mem_states fun hi => ?_) ?_
  · rw [stateVariable,
      Constraint.outcome_compare_stateSum hv _ (hsingle i hi) Exact.ofDouble_zero,
      List.map_singleton, List.sum_singleton, Except.ok.injEq, Except.ok.injEq]
    cases regular with
    | true => exact decide_eq_true_iff
    | false => exact decide_eq_true_iff
  · rw [Except.ok.injEq, Except.ok.injEq, ← t.sum_states]
    exact decide_eq_true_iff

end TruthTable

end Axioms

/-! ## 2. Probabilities zero and one -/

namespace TruthTable

variable {t : TruthTable} {S : Sentence}

/-- **A sentence is true in some state exactly if it is true under some valuation.** -/
theorem region_nonempty_iff (hS : S.letters ⊆ t.letters) :
    (t.region S).Nonempty ↔ ∃ w : Valuation, S.holds w = true := by
  constructor
  · intro h
    obtain ⟨i, hi⟩ := h
    exact ⟨t.holdsAt i, (mem_region.1 hi).2⟩
  · intro h
    obtain ⟨w, hw⟩ := h
    obtain ⟨i, ⟨hi, hagrees⟩, -⟩ := t.existsUnique_agrees w
    rw [holds_of_agrees hagrees hS] at hw
    exact ⟨i, mem_region.2 ⟨hi, hw⟩⟩

namespace Distribution

variable (d : t.Distribution)

/-- Where all states have positive masses, what can be true has a positive probability. -/
theorem probability_pos_iff (hd : ∀ i < t.stateCount, 0 < d.mass i) (hS : S.letters ⊆ t.letters) :
    0 < d.probability S ↔ ∃ w : Valuation, S.holds w = true := by
  rw [← region_nonempty_iff hS, probability]
  constructor
  · intro h
    by_contra hempty
    rw [Finset.not_nonempty_iff_eq_empty.1 hempty, Finset.sum_empty] at h
    exact lt_irrefl 0 h
  · exact Finset.sum_pos fun i hi => hd i (mem_region.1 hi).1

/-- Where all states have positive masses, only what cannot be true has the probability zero. -/
theorem probability_eq_zero_iff (hd : ∀ i < t.stateCount, 0 < d.mass i)
    (hS : S.letters ⊆ t.letters) :
    d.probability S = 0 ↔ ∀ w : Valuation, S.holds w = false := by
  have hpos := d.probability_pos_iff hd hS
  have hzero : ¬ 0 < d.probability S ↔ d.probability S = 0 :=
    not_lt.trans ⟨fun h => le_antisymm h (d.probability_nonneg S), le_of_eq⟩
  rw [← hzero, hpos, not_exists]
  exact forall_congr' fun w => iff_of_eq (Bool.not_eq_true _)

/-- Where all states have positive masses, only what cannot be false has the probability one. -/
theorem probability_eq_one_iff (hd : ∀ i < t.stateCount, 0 < d.mass i)
    (hS : S.letters ⊆ t.letters) :
    d.probability S = 1 ↔ ∀ w : Valuation, S.holds w = true := by
  have hnegation := d.probability_eq_zero_iff hd (S := .negation S) hS
  rw [d.probability_negation, sub_eq_zero, eq_comm] at hnegation
  rw [hnegation]
  exact forall_congr' fun w => iff_of_eq (Bool.not_eq_false' (S.holds w))

variable {v : Assignment Exact}

/-- **In regular mode what is possible has a positive probability.** Where the axioms of regular
    mode are evaluated to true, the probability of a sentence is a positive number exactly if some
    valuation makes it true and one exactly if all do; and a probability under a condition is a
    number between zero and one if some valuation makes the condition true, and a division by zero
    exactly if none does. -/
theorem regular_probabilities (sys : AlgebraSystem) {s : Nat → ℚ} (hv : v.Gives t s)
    (haxioms : ∀ c ∈ probabilityAxioms t true, c.outcome (.exact sys) t v = .ok (.ok true)) :
    (∀ S : Sentence, S.letters ⊆ t.letters →
      ∃ p : ℚ, (RealExpr.probability S).outcome (.exact sys) t v = .ok (.ok (.ofRat p)) ∧
        (0 < p ↔ ∃ w : Valuation, S.holds w = true) ∧
        (p = 1 ↔ ∀ w : Valuation, S.holds w = true)) ∧
    (∀ S T : Sentence, S.letters ⊆ t.letters → T.letters ⊆ t.letters →
      ((∃ w : Valuation, T.holds w = true) →
        ∃ q : ℚ, (RealExpr.given S T).outcome (.exact sys) t v = .ok (.ok (.ofRat q)) ∧
          0 ≤ q ∧ q ≤ 1) ∧
      ((RealExpr.given S T).outcome (.exact sys) t v = .ok (.error .divisionByZero) ↔
        ∀ w : Valuation, T.holds w = false)) := by
  obtain ⟨hpos, htotal⟩ := (axioms_hold_iff hv true).1 haxioms
  let d : t.Distribution := ⟨s, fun i hi => (hpos i hi).le, htotal⟩
  have hd : ∀ i < t.stateCount, 0 < d.mass i := hpos
  refine ⟨fun S hS => ?_, fun S T hS hT => ⟨fun hsome => ?_, ?_⟩⟩
  · exact ⟨d.probability S, d.outcome_probability hv hS, d.probability_pos_iff hd hS,
      d.probability_eq_one_iff hd hS⟩
  · have hT0 : 0 < d.probability T := (d.probability_pos_iff hd hT).2 hsome
    have hle : d.probability (.binary .conjunction S T) ≤ d.probability T :=
      d.probability_mono fun w hw => (Bool.and_eq_true_iff.1 hw).2
    refine ⟨_, (d.outcome_given hv hS hT).trans (if_neg hT0.ne'), ?_, ?_⟩
    · exact div_nonneg (d.probability_nonneg _) hT0.le
    · exact (div_le_one hT0).2 hle
  · rw [d.outcome_given hv hS hT, ← d.probability_eq_zero_iff hd hT]
    by_cases h : d.probability T = 0
    · rw [if_pos h]
      exact iff_of_true rfl h
    · rw [if_neg h]
      exact iff_of_false nofun h

/-- Two states of the same mass: the letter is neither certain nor impossible, and under it anything
    has a probability, but nothing has under its conjunction with its negation. -/
theorem regular_probabilities_of_one_letter :
    let t : TruthTable := ⟨[⟨"P", 0⟩], List.nodup_singleton _⟩
    let v := Assignment.ofRats (uniform t).mass fun _ => 0
    let P : Sentence := .letter ⟨"P", 0⟩
    (∀ c ∈ probabilityAxioms t true, c.outcome (.exact .enclosing) t v = .ok (.ok true)) ∧
    (∃ p : ℚ, (RealExpr.probability P).outcome (.exact .enclosing) t v = .ok (.ok (.ofRat p)) ∧
      0 < p ∧ p ≠ 1) ∧
    (∃ q : ℚ, (RealExpr.given (.negation P) P).outcome (.exact .enclosing) t v =
      .ok (.ok (.ofRat q)) ∧ 0 ≤ q ∧ q ≤ 1) ∧
    (RealExpr.given P (.binary .conjunction P (.negation P))).outcome (.exact .enclosing) t v =
      .ok (.error .divisionByZero) := by
  intro t v P
  have hv : v.Gives t (uniform t).mass := Assignment.gives_ofRats _ _ _
  have hdistribution : t.IsDistribution true (uniform t).mass :=
    ⟨fun i _ => div_pos one_pos (Nat.cast_pos.2 (twoTo_pos t.letterCount)), (uniform t).total⟩
  have haxioms : ∀ c ∈ probabilityAxioms t true,
      c.outcome (.exact .enclosing) t v = .ok (.ok true) :=
    (axioms_hold_iff hv true).2 hdistribution
  have hP : P.letters ⊆ t.letters := by decide
  have hboth : (Sentence.binary .conjunction P (.negation P)).letters ⊆ t.letters := by decide
  obtain ⟨hprobability, hgiven⟩ := regular_probabilities .enclosing hv haxioms
  obtain ⟨p, hp, hpos, hone⟩ := hprobability P hP
  have hsome : ∃ w : Valuation, P.holds w = true := ⟨fun _ => true, rfl⟩
  have hnot : p ≠ 1 := fun h => Bool.false_ne_true (hone.1 h fun _ => false)
  have hnever : ∀ w : Valuation, (Sentence.binary .conjunction P (.negation P)).holds w = false :=
    fun w => Bool.and_not_self (w ⟨"P", 0⟩)
  exact ⟨haxioms, ⟨p, hp, hpos.2 hsome, hnot⟩, (hgiven (.negation P) P hP hP).1 hsome,
    (hgiven P _ hP hboth).2.2 hnever⟩

end Distribution

end TruthTable

end Credal
