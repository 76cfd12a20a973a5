import Credal.Proofs.StateSpace.Canonical
import Credal.Proofs.StateSpace.Machine

/-!
# A sentence and the states in which it is true

The states of a sentence are listed by evaluating it in each state. A valuation from outside may be
compared with the listed states letter by letter instead: it is exactly one state of the table, and
as a sentence over the letters of the table depends on nothing else, that state is listed exactly if
the sentence is true under the valuation.

* `matchesAny_ofInt`: comparing a valuation with states of the table;
* `any_agrees_dnf`: comparing it with the states of a sentence;
* `dnf_agrees_with_evaluation`: what is listed, what a valuation is, and the comparison.
-/

namespace Credal

namespace TruthTable

variable {t : TruthTable} {v : Valuation} {S : Sentence}

/-- Asking for states of the table is comparing with each of them. -/
theorem matchesAny_ofInt (v : Valuation) {is : List Nat} (h : ∀ i ∈ is, i < t.stateCount) :
    t.matchesAny v (is.map fun (i : Nat) => .ofInt i) = .ok (is.any (t.agrees v)) := by
  induction is with
  | nil => rfl
  | cons i is ih =>
    obtain ⟨hi, his⟩ := List.forall_mem_cons.1 h
    rw [List.map_cons, matchesAny, stateOf_ofInt hi, ih his, List.any_cons]
    show (if t.agrees v i = true then _ else _) = _
    cases t.agrees v i with
    | true => rfl
    | false => rfl

/-- **A valuation is a state of a sentence exactly if the sentence is true under it.** -/
theorem any_agrees_dnf (v : Valuation) (hS : S.letters ⊆ t.letters) :
    (t.dnf S).any (t.agrees v) = S.holds v := by
  rw [Bool.eq_iff_iff, List.any_eq_true]
  constructor
  · intro h
    obtain ⟨i, hi, hv⟩ := h
    rw [holds_of_agrees hv hS]
    exact (mem_dnf.1 hi).2
  · intro h
    obtain ⟨i, ⟨hi, hv⟩, -⟩ := t.existsUnique_agrees v
    refine ⟨i, mem_dnf.2 ⟨hi, ?_⟩, hv⟩
    rw [← holds_of_agrees hv hS]
    exact h

/-- The values that are asked for, letter by letter, are those of the state. -/
theorem letterValue_iff {i : Nat} {w : Valuation} :
    (∀ l, t.letterValue l (.ofInt i) = .ok (w l)) ↔ i < t.stateCount ∧ t.holdsAt i = w := by
  constructor
  · intro h
    by_cases hi : i < t.stateCount
    · refine ⟨hi, funext fun l => ?_⟩
      exact Except.ok.inj ((t.canonical.value i hi l).symm.trans (h l))
    · have hout := (t.canonical.outside i (.inr (Int.ofNat_le.2 (Nat.le_of_not_lt hi)))).1 default
      cases hout.symm.trans (h default)
  · intro h l
    obtain ⟨hi, rfl⟩ := h
    exact t.canonical.value i hi l

/-- **What is listed is what is evaluated.** For a sentence over the letters of a table: its states
    are listed in ascending order, and a state is listed exactly if the sentence is true under the
    values that the letters are said to have in it. A valuation from outside has the values of
    exactly one state of the table, and comparing it with the listed states tells whether the
    sentence is true under it, as both ways of evaluating the sentence do. -/
theorem dnf_agrees_with_evaluation (hS : S.letters ⊆ t.letters) (v : Valuation) :
    (t.dnf S).Pairwise (· < ·) ∧
    (∀ i : Nat, i ∈ t.dnf S ↔
      ∃ w : Valuation, (∀ l, t.letterValue l (.ofInt i) = .ok (w l)) ∧ S.holds w = true) ∧
    (∃! i : Nat, i < t.stateCount ∧ ∀ l ∈ t.letters, t.letterValue l (.ofInt i) = .ok (v l)) ∧
    t.matchesAny v ((t.dnf S).map fun (i : Nat) => .ofInt i) = .ok (S.holds v) ∧
    S.holdsByStack? v = some (S.holds v) := by
  refine ⟨t.pairwise_dnf S, fun i => ?_, ?_, ?_, S.holdsByStack?_eq v⟩
  · simp only [letterValue_iff, mem_dnf]
    constructor
    · intro h
      exact ⟨t.holdsAt i, ⟨h.1, rfl⟩, h.2⟩
    · intro h
      obtain ⟨w, ⟨hi, rfl⟩, hw⟩ := h
      exact ⟨hi, hw⟩
  · refine (existsUnique_congr fun i => and_congr_right fun hi => ?_).1 (t.existsUnique_agrees v)
    rw [agrees_iff]
    refine forall₂_congr fun l _ => ?_
    rw [t.canonical.value i hi, Except.ok.injEq, eq_comm]
  · rw [matchesAny_ofInt v fun i hi => (mem_dnf.1 hi).1, any_agrees_dnf v hS]

/-- A sentence with one of two letters, and a valuation that makes a third letter true as well. -/
theorem dnf_agrees_with_evaluation_of_negation :
    let t : TruthTable := ⟨[⟨"P", 0⟩, ⟨"Q", 0⟩], by decide⟩
    let S : Sentence := .negation (.letter ⟨"P", 0⟩)
    let v : Valuation := fun l => l.id == "Q" || l.id == "R"
    S.letters ⊆ t.letters ∧ t.dnf S = [2, 3] ∧
      t.matchesAny v [.ofInt 2, .ofInt 3] = .ok true := by
  intro t S v
  have hS : S.letters ⊆ t.letters := by decide
  have hdnf : t.dnf S = [2, 3] := by decide +kernel
  have hmatches := (dnf_agrees_with_evaluation hS v).2.2.2.1
  rw [hdnf] at hmatches
  exact ⟨hS, hdnf, hmatches⟩

end TruthTable

end Credal
