import Credal.Proofs.StateSpace.Valuations

/-!
# The canonical state space

The table of a list of letters has each of them once, in the given order. A state is the binary
numeral of its index, padded with zeros to one digit for each letter; the letters at a 0 are the
true ones. The sentence of a state, which is built from the same letters, is true in that state
only.

* `LetterOrder.pairwise_sort`, `pair_sublist_sort`: sorting, which keeps the order of equal keys;
* `TruthTable.numeral`, `trueLetters`, `mem_trueLetters_iff`: the numeral of a state and the
  letters that it makes true;
* `dnf_sentenceOf`: the states in which the sentence of a state is true;
* `stateOf_ofInt_of_outside`, `matchesAny_skip`: asking for an index that is no state;
* `Canonical`, `canonical`: all that is known of the states of a table;
* `state_space_canonical`: the table of a list of letters.
-/

namespace Credal

open Credal.Number

/-! ## 1. Sorted letters -/

namespace LetterOrder

variable (o : LetterOrder)

theorem le_trans {a b c : Letter} (hab : o.le a b = true) (hbc : o.le b c = true) :
    o.le a c = true := by
  have := o.trans
  exact Std.TransCmp.isLE_trans hab hbc

theorem le_total (a b : Letter) : (o.le a b || o.le b a) = true := by
  have := o.trans
  cases hab : o.le a b with
  | true => rfl
  | false =>
    rw [Bool.false_or]
    refine Std.OrientedCmp.isGE_iff_isLE.1 (Ordering.isGE_of_eq_gt ?_)
    exact Ordering.isLE_eq_false.1 hab

/-- **Sorted letters stand in order.** -/
theorem pairwise_sort (ls : List Letter) : (o.sort ls).Pairwise (o.le · · = true) :=
  @List.pairwise_mergeSort _ o.le (fun _ _ _ => o.le_trans) o.le_total ls

/-- Letters that are in order stay so, also if the order does not tell them apart. -/
theorem pair_sublist_sort {a b : Letter} {ls : List Letter} (hab : o.le a b = true)
    (h : [a, b].Sublist ls) : [a, b].Sublist (o.sort ls) :=
  List.pair_sublist_mergeSort (fun _ _ _ => o.le_trans) o.le_total hab h

end LetterOrder

/-! ## 2. Numerals -/

/-- The binary digits of a number, the last one first, with zeros after them. -/
theorem getD_reverse_toDigits_two (i j : Nat) :
    (Nat.toDigits 2 i).reverse.getD j '0' = if i.testBit j then '1' else '0' := by
  induction i using Nat.strongRecOn generalizing j with
  | ind i ih =>
    rw [Nat.toDigits_eq_if Nat.one_lt_two]
    by_cases hi : i < 2
    · rw [if_pos hi]
      cases j with
      | zero => interval_cases i <;> rfl
      | succ j =>
        have hhalf : i / 2 = 0 := by omega
        rw [Nat.testBit_succ, hhalf, Nat.zero_testBit]
        rfl
    · rw [if_neg hi, List.reverse_append]
      cases j with
      | zero =>
        rw [Nat.testBit_zero]
        rcases Nat.mod_two_eq_zero_or_one i with h | h <;> rw [h] <;> rfl
      | succ j =>
        rw [Nat.testBit_succ, ← ih (i / 2) (by omega) j]
        rfl

/-- An item of a padded list, counted from the other end. -/
theorem getElem?_leftpad {α : Type} {xs : List α} {n k : Nat} (a : α) (hlen : xs.length ≤ n)
    (hk : k < n) : (xs.leftpad n a)[k]? = some (xs.reverse.getD (n - 1 - k) a) := by
  have hpadded : k < (xs.leftpad n a).length := by
    rw [List.length_leftpad, max_eq_left hlen]
    exact hk
  rw [List.getElem?_eq_getElem hpadded, Option.some.injEq]
  simp only [List.leftpad]
  by_cases hpad : k < n - xs.length
  · have hout : xs.reverse.length ≤ n - 1 - k := by
      rw [List.length_reverse]
      omega
    rw [List.getElem_append_left (by rw [List.length_replicate]; exact hpad),
      List.getElem_replicate, List.getD_eq_default _ _ hout]
  · have hin : n - 1 - k < xs.reverse.length := by
      rw [List.length_reverse]
      omega
    rw [List.getElem_append_right (by rw [List.length_replicate]; omega),
      List.getD_eq_getElem _ _ hin, List.getElem_reverse]
    congr 1
    rw [List.length_replicate]
    omega

namespace TruthTable

variable {t : TruthTable}

/-- The binary numeral of a state, one digit for each letter. -/
def numeral (t : TruthTable) (i : Nat) : List Char := (Nat.toDigits 2 i).leftpad t.letterCount '0'

/-- The letters at the zeros of a state's numeral. -/
def trueLetters (t : TruthTable) (i : Nat) : List Letter :=
  ((t.letters.zip (t.numeral i)).filter (·.2 = '0')).map Prod.fst

theorem getElem?_numeral {i k : Nat} (hi : i < t.stateCount) (hk : k < t.letterCount) :
    (t.numeral i)[k]? = some (if i.testBit (t.letterCount - 1 - k) then '1' else '0') := by
  have hlen : (Nat.toDigits 2 i).length ≤ t.letterCount :=
    (Nat.length_toDigits_le_iff Nat.one_lt_two (Nat.zero_lt_of_lt hk)).2 hi
  rw [numeral, getElem?_leftpad '0' hlen hk, getD_reverse_toDigits_two]

/-- **The letters at the zeros are the true ones.** -/
theorem mem_trueLetters_iff {i : Nat} (hi : i < t.stateCount) {l : Letter} :
    l ∈ t.trueLetters i ↔ l ∈ t.letters ∧ t.holdsAt i l = true := by
  have hdigit : ∀ k (hk : k < t.letters.length), (t.numeral i)[k]? = some '0' ↔
      t.holdsAt i t.letters[k] = true := by
    intro k hk
    rw [getElem?_numeral hi hk, holdsAt_getElem, Option.some.injEq, Bool.not_eq_true']
    cases i.testBit (t.letterCount - 1 - k) <;> decide
  rw [trueLetters, List.mem_map]
  constructor
  · rintro ⟨⟨l, c⟩, hmem, rfl⟩
    obtain ⟨hzip, hc⟩ := List.mem_filter.1 hmem
    obtain ⟨k, hk⟩ := List.mem_iff_getElem?.1 hzip
    obtain ⟨hl, hd⟩ := List.getElem?_zip_eq_some.1 hk
    obtain ⟨hlt, rfl⟩ := List.getElem?_eq_some_iff.1 hl
    have hzero : c = '0' := of_decide_eq_true hc
    exact ⟨List.getElem_mem hlt, (hdigit k hlt).1 (hd.trans (congrArg some hzero))⟩
  · rintro ⟨hmem, htrue⟩
    obtain ⟨k, hk, rfl⟩ := List.getElem_of_mem hmem
    refine ⟨(t.letters[k], '0'), List.mem_filter.2 ⟨?_, rfl⟩, rfl⟩
    refine List.mem_iff_getElem?.2 ⟨k, List.getElem?_zip_eq_some.2 ⟨?_, (hdigit k hk).2 htrue⟩⟩
    exact List.getElem?_eq_getElem hk

/-! ## 3. Sentences of states -/

theorem holds_conjunctionOf (v : Valuation) (parts : List Sentence) :
    (conjunctionOf parts).holds v = parts.all (·.holds v) := by
  induction parts using conjunctionOf.induct with
  | case1 => rfl
  | case2 s => rw [conjunctionOf, List.all_cons, List.all_nil, Bool.and_true]
  | case3 s rest hrest ih =>
    rw [conjunctionOf.eq_3 s rest hrest, Sentence.holds, Connective.holds, ih, List.all_cons]

theorem holds_literalAt (t : TruthTable) (v : Valuation) (i : Nat) (l : Letter) :
    (t.literalAt i l).holds v = (v l == t.holdsAt i l) := by
  unfold literalAt
  cases t.holdsAt i l with
  | true => exact (beq_true (v l)).symm
  | false => exact (beq_false (v l)).symm

/-- The sentence of a state is true under the valuations that agree with the state. -/
theorem holds_sentenceOf (t : TruthTable) (v : Valuation) (i : Nat) :
    (t.sentenceOf i).holds v = t.agrees v i := by
  rw [sentenceOf, holds_conjunctionOf, List.all_map, agrees]
  congr 1
  funext l
  exact t.holds_literalAt v i l

/-- **The sentence of a state is true in that state only.** -/
theorem dnf_sentenceOf {i : Nat} (hi : i < t.stateCount) : t.dnf (t.sentenceOf i) = [i] := by
  have hnodup : (t.dnf (t.sentenceOf i)).Nodup := List.nodup_range.filter _
  refine List.perm_singleton.1 ((List.perm_ext_iff_of_nodup hnodup (List.nodup_singleton i)).2 ?_)
  intro j
  rw [mem_dnf, List.mem_singleton, holds_sentenceOf]
  constructor
  · rintro ⟨hj, h⟩
    exact (agrees_holdsAt_iff hi hj).1 h
  · rintro rfl
    exact ⟨hi, t.agrees_holdsAt j⟩

/-! ## 4. Asking for states -/

theorem stateOf_ofInt {i : Nat} (hi : i < t.stateCount) : t.stateOf (.ofInt i) = .ok i := by
  have hstate : t.state? (i : Int) = some i :=
    if_pos ⟨Int.natCast_nonneg i, Int.ofNat_lt.2 hi⟩
  simp only [stateOf, Asked.ofInt, Option.bind_some, hstate]

/-- **An index that is no state is out of range.** -/
theorem stateOf_ofInt_of_outside {j : Int} (hj : j < 0 ∨ t.stateCount ≤ j) :
    t.stateOf (.ofInt j) = .error ⟨intText j, t.stateCount⟩ := by
  have hstate : t.state? j = none := if_neg (by omega)
  simp only [stateOf, Asked.ofInt, Option.bind_some, hstate]

/-- States that a valuation is not are passed over. -/
theorem matchesAny_skip {v : Valuation} {before : List Asked} (rest : List Asked)
    (h : ∀ a ∈ before, ∃ i, t.stateOf a = .ok i ∧ t.agrees v i = false) :
    t.matchesAny v (before ++ rest) = t.matchesAny v rest := by
  induction before with
  | nil => rfl
  | cons a before ih =>
    obtain ⟨⟨i, hi, hv⟩, hbefore⟩ := List.forall_mem_cons.1 h
    rw [List.cons_append, matchesAny, hi, ← ih hbefore]
    show (if t.agrees v i = true then _ else _) = _
    rw [hv]
    rfl

/-- An index that is no state is found where it is reached. -/
theorem matchesAny_of_outside {v : Valuation} {j : Int} (hj : j < 0 ∨ t.stateCount ≤ j)
    (rest : List Asked) :
    t.matchesAny v (.ofInt j :: rest) = .error ⟨intText j, t.stateCount⟩ := by
  rw [matchesAny, stateOf_ofInt_of_outside hj]
  rfl

/-! ## 5. Tables of letters -/

/-- All that is known of the states of a table. -/
structure Canonical (t : TruthTable) : Prop where
  /-- There are `2 ^ n` states for `n` letters. -/
  count : t.states = List.range (2 ^ t.letterCount)
  /-- A letter is true where its digit is 0, the leading digit being that of the first letter. -/
  digit : ∀ (i k : Nat) (hk : k < t.letters.length),
    t.holdsAt i t.letters[k] = true ↔ i.testBit (t.letterCount - 1 - k) = false
  /-- The true letters are those at the zeros of the numeral. -/
  numeral : ∀ i < 2 ^ t.letterCount, ∀ l,
    l ∈ t.trueLetters i ↔ l ∈ t.letters ∧ t.holdsAt i l = true
  /-- The states are the valuations of the letters. -/
  valuations : Function.Bijective
    fun (i : Fin (2 ^ t.letterCount)) (l : {l // l ∈ t.letters}) => t.holdsAt i l
  /-- The value of a letter in a state. -/
  value : ∀ i : Nat, i < 2 ^ t.letterCount → ∀ l, t.letterValue l (.ofInt i) = .ok (t.holdsAt i l)
  /-- The sentence of a state is true in it and in no other. -/
  sentence : ∀ i : Nat, i < 2 ^ t.letterCount → ∃ S,
    t.stateSentence (.ofInt i) = .ok S ∧ t.dnf S = [i]
  /-- Asking for any other index is an error, among listed states if it is reached. -/
  outside : ∀ j : Int, (j < 0 ∨ (2 ^ t.letterCount : Nat) ≤ j) →
    (∀ l, t.letterValue l (.ofInt j) = .error ⟨intText j, 2 ^ t.letterCount⟩) ∧
    t.stateSentence (.ofInt j) = .error ⟨intText j, 2 ^ t.letterCount⟩ ∧
    ∀ v before after, (∀ a ∈ before, ∃ i, t.stateOf a = .ok i ∧ t.agrees v i = false) →
      t.matchesAny v (before ++ .ofInt j :: after) = .error ⟨intText j, 2 ^ t.letterCount⟩

/-- **Every table is canonical.** -/
theorem canonical (t : TruthTable) : t.Canonical where
  count := rfl
  digit i k hk := by rw [t.holdsAt_getElem i hk, Bool.not_eq_true']
  numeral _ hi _ := mem_trueLetters_iff hi
  valuations := t.valuations_bijective
  value i hi l := by
    rw [letterValue, stateOf_ofInt hi]
    rfl
  sentence i hi := by
    refine ⟨t.sentenceOf i, ?_, dnf_sentenceOf hi⟩
    rw [stateSentence, stateOf_ofInt hi]
    rfl
  outside j hj := by
    have hstate := stateOf_ofInt_of_outside (t := t) hj
    refine ⟨fun l => ?_, ?_, fun v before after h => ?_⟩
    · rw [letterValue, hstate]
      rfl
    · rw [stateSentence, hstate]
      rfl
    · rw [matchesAny_skip _ h, matchesAny_of_outside hj]
      rfl

/-- **The state space of a list of letters is canonical.** The table has the letters of the list,
    each once and in order, those that the order does not tell apart as they came; and its states
    are those of a canonical table. -/
theorem state_space_canonical (o : LetterOrder) (ls : List Letter) :
    let t := ofLetters o ls
    t.letters.Nodup ∧ (∀ l, l ∈ t.letters ↔ l ∈ ls) ∧ t.letters.Pairwise (o.le · · = true) ∧
    (∀ a b, o.le a b = true → [a, b].Sublist (distinct ls) → [a, b].Sublist t.letters) ∧
    t.Canonical := by
  intro t
  refine ⟨t.nodup, fun l => ?_, o.pairwise_sort _, fun a b hab h => ?_, t.canonical⟩
  · exact (o.sort_perm (distinct ls)).mem_iff.trans mem_distinct
  · exact o.pair_sublist_sort hab h

end TruthTable

end Credal
