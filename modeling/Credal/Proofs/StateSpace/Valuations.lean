import Credal.StateSpace.TruthTable
import Mathlib

/-!
# States and valuations

A state of a table gives every letter of it a truth value, and every choice of such values is given
by exactly one state. A sentence over the letters of a table has in a state the value that it has
under every valuation which agrees with the state.

* `Sentence.holds_congr`: a sentence depends on its own letters only;
* `TruthTable.holdsAt_getElem`: a letter is true in a state where its digit is 0;
* `valuations_bijective`: the states are the valuations of the letters;
* `existsUnique_agrees`: each valuation agrees with one state, and `holds_of_agrees`;
* `mem_dnf`, `pairwise_dnf`: the states in which a sentence is true, in ascending order.
-/

namespace Credal

/-- **A sentence depends on its own letters only.** -/
theorem Sentence.holds_congr {v w : Valuation} {S : Sentence} (h : ∀ l ∈ S.letters, v l = w l) :
    S.holds v = S.holds w := by
  induction S with
  | value b => rfl
  | letter l => exact h l (List.mem_singleton_self l)
  | negation S ih => exact congrArg (!·) (ih h)
  | binary k S T ihS ihT =>
    obtain ⟨hS, hT⟩ := List.forall_mem_append.1 h
    exact congrArg₂ k.holds (ihS hS) (ihT hT)

namespace TruthTable

variable {t : TruthTable}

theorem stateCount_eq (t : TruthTable) : t.stateCount = 2 ^ t.letterCount := rfl

/-! ## 1. Digits -/

/-- **The digits of a state belong to the letters in their order**, the leading one first, and a
    letter is true where its digit is 0. -/
theorem holdsAt_getElem (t : TruthTable) (i : Nat) {k : Nat} (hk : k < t.letters.length) :
    t.holdsAt i t.letters[k] = !i.testBit (t.letterCount - 1 - k) := by
  have hidx : t.letters.idxOf? t.letters[k] = some k := by
    rw [List.idxOf?_eq_some_iff]
    exact ⟨hk, rfl, fun j hj h => hj.ne ((List.Nodup.getElem_inj_iff t.nodup).1 h)⟩
  rw [holdsAt, hidx]

/-- States with the same letters have the same digits. -/
theorem eq_of_holdsAt {i j : Nat} (hi : i < t.stateCount) (hj : j < t.stateCount)
    (h : ∀ l ∈ t.letters, t.holdsAt i l = t.holdsAt j l) : i = j := by
  refine Nat.eq_of_testBit_eq fun b => ?_
  by_cases hb : b < t.letterCount
  · have hk : t.letterCount - 1 - b < t.letters.length := by
      show _ < t.letterCount
      omega
    have hlast : t.letterCount - 1 - (t.letterCount - 1 - b) = b := by omega
    have hletter := h _ (List.getElem_mem hk)
    rw [holdsAt_getElem, holdsAt_getElem, hlast] at hletter
    exact Bool.not_inj hletter
  · have hpow : 2 ^ t.letterCount ≤ 2 ^ b := Nat.pow_le_pow_right Nat.two_pos (Nat.le_of_not_lt hb)
    rw [Nat.testBit_lt_two_pow (lt_of_lt_of_le hi hpow),
      Nat.testBit_lt_two_pow (lt_of_lt_of_le hj hpow)]

/-- **The states are the valuations of the letters.** -/
theorem valuations_bijective (t : TruthTable) : Function.Bijective
    fun (i : Fin t.stateCount) (l : {l // l ∈ t.letters}) => t.holdsAt i l := by
  rw [Fintype.bijective_iff_injective_and_card]
  constructor
  · intro i j h
    exact Fin.ext (eq_of_holdsAt i.isLt j.isLt fun l hl => congrFun h ⟨l, hl⟩)
  · have hletters : Fintype.card {l // l ∈ t.letters} = t.letterCount := by
      rw [letterCount, ← List.toFinset_card_of_nodup t.nodup, ← Fintype.card_coe]
      exact Fintype.card_congr (Equiv.subtypeEquivRight fun l => List.mem_toFinset.symm)
    rw [Fintype.card_fun, Fintype.card_bool, hletters, Fintype.card_fin, stateCount_eq]

/-! ## 2. Agreement -/

theorem agrees_iff {v : Valuation} {i : Nat} :
    t.agrees v i = true ↔ ∀ l ∈ t.letters, v l = t.holdsAt i l := by
  simp only [agrees, List.all_eq_true, beq_iff_eq]

theorem agrees_holdsAt (t : TruthTable) (i : Nat) : t.agrees (t.holdsAt i) i = true :=
  agrees_iff.2 fun _ _ => rfl

/-- Two states of a table that agree are the same. -/
theorem agrees_holdsAt_iff {i j : Nat} (hi : i < t.stateCount) (hj : j < t.stateCount) :
    t.agrees (t.holdsAt j) i = true ↔ j = i := by
  constructor
  · intro h
    exact eq_of_holdsAt hj hi (agrees_iff.1 h)
  · rintro rfl
    exact t.agrees_holdsAt j

/-- **Each valuation agrees with one state of a table.** -/
theorem existsUnique_agrees (t : TruthTable) (v : Valuation) :
    ∃! i, i < t.stateCount ∧ t.agrees v i = true := by
  obtain ⟨i, hi⟩ := t.valuations_bijective.2 fun l => v l
  refine ⟨i, ⟨i.isLt, agrees_iff.2 fun l hl => (congrFun hi ⟨l, hl⟩).symm⟩, ?_⟩
  rintro j ⟨hj, hv⟩
  refine eq_of_holdsAt hj i.isLt fun l hl => ?_
  rw [← agrees_iff.1 hv l hl]
  exact (congrFun hi ⟨l, hl⟩).symm

/-- A sentence has in a state the value that it has under a valuation which agrees with the
    state. -/
theorem holds_of_agrees {v : Valuation} {i : Nat} {S : Sentence} (hv : t.agrees v i = true)
    (hS : S.letters ⊆ t.letters) : S.holds v = S.holds (t.holdsAt i) :=
  Sentence.holds_congr fun l hl => agrees_iff.1 hv l (hS hl)

/-! ## 3. Listed states -/

theorem mem_states {i : Nat} : i ∈ t.states ↔ i < t.stateCount := List.mem_range

theorem mem_dnf {S : Sentence} {i : Nat} :
    i ∈ t.dnf S ↔ i < t.stateCount ∧ S.holds (t.holdsAt i) = true := by
  rw [dnf, List.mem_filter, mem_states]

theorem pairwise_dnf (t : TruthTable) (S : Sentence) : (t.dnf S).Pairwise (· < ·) :=
  List.pairwise_lt_range.filter _

end TruthTable

end Credal
