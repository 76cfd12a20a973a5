import Credal.Model.Exact
import Credal.Proofs.Exact.Value
import Credal.Proofs.Model.Decoded
import Credal.Proofs.Model.Shortened

/-!
# The number that a model value denotes

A model value is a real number if no part of it is a term that says nothing, a quotient by zero, or
a root object without that root. The number is found by exact arithmetic, and a divisor is zero only
if it is found to be the rational number zero. Otherwise a fault tells what is wrong with some part;
only a root object whose index or polynomial is too long to be written has a fault that does not.

* `ModelValue.Denotes`: the real number of a value;
* `ModelValue.HasFault`: what is wrong with a value, its parts aside;
* `denotes_of_exact`, `Denotes.unique`: what is found is the number;
* `hasFault_of_exact`, `not_hasFault_of_exact`: a fault, and none;
* `exact_denotes`: a whole value.
-/

namespace Credal

open Credal.Number

/-- The fault describes the value. -/
def ValueFault.IsReported : ValueFault → Prop
  | .unwritable => False
  | _ => True

namespace Poly

/-- There is a real root with the number. -/
def HasIndex (p : Poly) (index : Int) : Prop :=
  1 ≤ index ∧ index ≤ {x : ℝ | p.valueIn x = 0}.ncard

/-- The number of a root and the coefficients are short enough to be written. -/
def IsWritableWith (p : Poly) (index : Int) : Prop := isWritable index ∧ ∀ c ∈ p, isWritable c

end Poly

namespace ModelValue

/-- The real number that a value denotes. A root object denotes the root that has one root less than
    its index below it, whatever the zeros in front of the polynomial and the multiplicities. -/
inductive Denotes : ModelValue → ℝ → Prop
  | literal (q : Rat) : Denotes (.literal q) q
  | negative {v : ModelValue} {x : ℝ} (h : v.Denotes x) : Denotes (.negative v) (-x)
  | quotient {a b : ModelValue} {x y : ℝ} (ha : a.Denotes x) (hb : b.Denotes y) (hy : y ≠ 0) :
    Denotes (.quotient a b) (x / y)
  | root {index : Int} {p : Poly} {r : ℝ} (hp : ∃ c ∈ p, c ≠ 0) (hroot : p.valueIn r = 0)
    (hbelow : ({x : ℝ | p.valueIn x = 0 ∧ x < r}.ncard : Int) = index - 1) :
    Denotes (.root index p) r

/-- What is wrong with a value, its parts aside. -/
inductive HasFault : ModelValue → ValueFault → Prop
  | unknown (s : SExpr) : HasFault (.unknown s) (.unknown s)
  | zeroDivisor {a b : ModelValue} (hb : b.Denotes 0) : HasFault (.quotient a b) .zeroDivisor
  | zeroPolynomial {index : Int} {p : Poly} (hp : ∀ c ∈ p, c = 0) :
    HasFault (.root index p) .zeroPolynomial
  | rootIndex {index : Int} {p : Poly} (hp : ∃ c ∈ p, c ≠ 0) (hindex : ¬ p.HasIndex index)
    (hwritable : p.IsWritableWith index) :
    HasFault (.root index p) (.rootIndex index {x : ℝ | p.valueIn x = 0}.ncard)
  | unwritable {index : Int} {p : Poly} (hp : ∃ c ∈ p, c ≠ 0) (hindex : ¬ p.HasIndex index)
    (hlong : ¬ p.IsWritableWith index) : HasFault (.root index p) .unwritable

variable {v a b : ModelValue} {p q : Poly} {index : Int} {f : ValueFault} {r : ℝ} {x y : Algebraic}

/-! ## 1. Root objects -/

theorem exists_ne_zero_iff : (∃ c ∈ p, c ≠ 0) ↔ p.trim ≠ [] := by
  rw [Ne, Poly.trim_eq_nil_iff]
  push Not
  rfl

/-- A root object denotes the root with its index. -/
theorem denotes_root_iff : (root index p).Denotes r ↔
    p.trim ≠ [] ∧ 1 ≤ index ∧ p.IsNthRoot index.toNat r := by
  rw [← exists_ne_zero_iff]
  constructor
  · intro h
    cases h with
    | root hp hroot hbelow => exact ⟨hp, by omega, hroot, by omega⟩
  · rintro ⟨hp, hpos, hroot, hbelow⟩
    exact .root hp hroot (by omega)

theorem hasIndex_iff (hp : p.trim ≠ []) : p.HasIndex index ↔ 1 ≤ index ∧ index ≤ p.rootCount := by
  rw [Poly.HasIndex, Poly.rootCount_eq hp]

/-- **The root with a number in range.** -/
theorem exists_root (hp : p.trim ≠ []) (h : p.HasIndex index) :
    ∃ r, p.IsNthRoot index.toNat r := by
  obtain ⟨hpos, hle⟩ := (hasIndex_iff hp).1 h
  have hsimple := Poly.hasSimpleRoots_squarefree hp
  have hcount : index.toNat ≤ p.squarefree.realRoots.card := by
    rw [← Poly.chainRootCount_eq hsimple]
    exact Int.toNat_le.2 hle
  obtain ⟨r, hr⟩ := Poly.exists_isNthRoot hsimple.leading_ne_zero (by omega) hcount
  exact ⟨r, (Poly.isNthRoot_squarefree_iff hp).1 hr⟩

theorem exact_root_eq_ok (h : (root index p).exact = .ok x) :
    p.trim ≠ [] ∧ p.HasIndex index ∧ x = .ofRoot p index.toNat := by
  rw [exact, rootNumber] at h
  split at h
  · cases h
  · rename_i hp
    have hne : p.trim ≠ [] := fun hnil => hp (List.isEmpty_iff.2 hnil)
    split at h
    · rename_i hindex
      exact ⟨hne, (hasIndex_iff hne).2 hindex, (Except.ok.inj h).symm⟩
    · split at h <;> cases h

theorem exact_root_of_hasIndex (hp : p.trim ≠ []) (h : p.HasIndex index) :
    (root index p).exact = .ok (.ofRoot p index.toNat) := by
  rw [exact, rootNumber, if_neg (List.isEmpty_iff.not.2 hp), if_pos ((hasIndex_iff hp).1 h)]

theorem hasFault_of_exact_root (h : (root index p).exact = .error f) :
    (root index p).HasFault f := by
  rw [exact, rootNumber] at h
  split at h
  · rename_i hp
    rw [← Except.error.inj h]
    exact .zeroPolynomial (Poly.trim_eq_nil_iff.1 (List.isEmpty_iff.1 hp))
  · rename_i hp
    have hne : p.trim ≠ [] := fun hnil => hp (List.isEmpty_iff.2 hnil)
    split at h
    · cases h
    · rename_i hindex
      have hrange : ¬ p.HasIndex index := (hasIndex_iff hne).not.2 hindex
      have hwritable : (isWritable index && p.all isWritable) = true ↔ p.IsWritableWith index := by
        rw [Bool.and_eq_true, List.all_eq_true]
        rfl
      split at h
      · rename_i hshort
        rw [← Except.error.inj h, Poly.rootCount_eq hne]
        exact .rootIndex (exists_ne_zero_iff.2 hne) hrange (hwritable.1 hshort)
      · rename_i hlong
        rw [← Except.error.inj h]
        exact .unwritable (exists_ne_zero_iff.2 hne) hrange (hwritable.not.1 hlong)

/-! ## 2. Numbers -/

theorem exact_quotient_eq_ok (h : (quotient a b).exact = .ok x) :
    ∃ y z, a.exact = .ok y ∧ b.exact = .ok z ∧ z ≠ .rational 0 ∧ x = y.times z.inverse := by
  rw [exact] at h
  obtain ⟨z, hz, h⟩ := andThen_eq_ok_iff.1 h
  by_cases hzero : z = .rational 0
  · simp [hzero, bind, Except.bind] at h
  · rw [if_neg hzero] at h
    obtain ⟨y, hy, h⟩ := andThen_eq_ok_iff.1 h
    exact ⟨y, z, hy, hz, hzero, (Except.ok.inj h).symm⟩

/-- **What is found is the number**, and it is not zero unless it is written as zero. -/
theorem denotes_of_exact (h : v.exact = .ok x) : v.Denotes x.value ∧ x.ShowsZero := by
  induction v generalizing x with
  | literal q =>
    obtain rfl := Except.ok.inj h
    exact ⟨.literal q, Algebraic.showsZero_rational q⟩
  | negative v ih =>
    obtain ⟨y, hy, rfl⟩ := bind_eq_ok_iff.1 h
    obtain ⟨hdenotes, hzero⟩ := ih hy
    rw [Algebraic.value_negate]
    exact ⟨.negative hdenotes, hzero.negate⟩
  | quotient a b iha ihb =>
    obtain ⟨y, z, hy, hz, hne, rfl⟩ := exact_quotient_eq_ok h
    obtain ⟨ha, hashows⟩ := iha hy
    obtain ⟨hb, hbshows⟩ := ihb hz
    rw [Algebraic.value_times, Algebraic.value_inverse, ← div_eq_mul_inv]
    exact ⟨.quotient ha hb fun hzero => hne (hbshows hzero), hashows.times hbshows.inverse⟩
  | root index p =>
    obtain ⟨hp, hindex, rfl⟩ := exact_root_eq_ok h
    obtain ⟨r, hr⟩ := exists_root hp hindex
    rw [Algebraic.value_ofRoot hp hr]
    exact ⟨denotes_root_iff.2 ⟨hp, hindex.1, hr⟩, Algebraic.showsZero_ofRoot hp hr⟩
  | unknown s => cases h

/-- **A value denotes one number.** -/
theorem Denotes.unique {s : ℝ} (hr : v.Denotes r) (hs : v.Denotes s) : r = s := by
  induction hr generalizing s with
  | literal q =>
    cases hs
    rfl
  | negative h ih =>
    cases hs with
    | negative h' => rw [ih h']
  | quotient ha hb hy iha ihb =>
    cases hs with
    | quotient ha' hb' hy' => rw [iha ha', ihb hb']
  | root hp hroot hbelow =>
    obtain ⟨hne, -, hr⟩ := denotes_root_iff.1 (.root hp hroot hbelow)
    obtain ⟨-, -, hs⟩ := denotes_root_iff.1 hs
    exact ((Poly.isNthRoot_squarefree_iff hne).2 hr).unique (Poly.leading_squarefree hne).ne'
      ((Poly.isNthRoot_squarefree_iff hne).2 hs)

/-! ## 3. Faults -/

/-- **A fault tells what is wrong with some part.** -/
theorem hasFault_of_exact (h : v.exact = .error f) : ∃ u ∈ v.parts, u.HasFault f := by
  induction v with
  | literal q => cases h
  | negative v ih =>
    rcases bind_eq_error_iff.1 h with h | ⟨y, -, h⟩
    · obtain ⟨u, hu, hfault⟩ := ih h
      exact ⟨u, List.mem_cons_of_mem _ hu, hfault⟩
    · cases h
  | quotient a b iha ihb =>
    rw [exact] at h
    rcases bind_eq_error_iff.1 h with h | ⟨z, hz, h⟩
    · obtain ⟨u, hu, hfault⟩ := ihb h
      exact ⟨u, List.mem_cons_of_mem _ (List.mem_append_right _ hu), hfault⟩
    · by_cases hzero : z = .rational 0
      · rw [hzero] at hz h
        have hdivisor : f = .zeroDivisor := by simpa [bind, Except.bind, eq_comm] using h
        have hdenotes := (denotes_of_exact hz).1
        rw [Algebraic.value_zero] at hdenotes
        exact ⟨_, List.mem_cons_self, hdivisor ▸ .zeroDivisor hdenotes⟩
      · rw [if_neg hzero] at h
        rcases bind_eq_error_iff.1 h with h | ⟨y, -, h⟩
        · obtain ⟨u, hu, hfault⟩ := iha h
          exact ⟨u, List.mem_cons_of_mem _ (List.mem_append_left _ hu), hfault⟩
        · cases h
  | root index p => exact ⟨_, List.mem_singleton_self _, hasFault_of_exact_root h⟩
  | unknown s =>
    obtain rfl := Except.error.inj h
    exact ⟨_, List.mem_singleton_self _, .unknown s⟩

/-- **Nothing is wrong with the parts of a value that is a number.** -/
theorem not_hasFault_of_exact (h : v.exact = .ok x) : ∀ u ∈ v.parts, ¬ u.HasFault f := by
  induction v generalizing x with
  | literal q =>
    rintro u hu hfault
    obtain rfl := List.mem_singleton.1 hu
    cases hfault
  | negative v ih =>
    obtain ⟨y, hy, rfl⟩ := bind_eq_ok_iff.1 h
    rintro u hu hfault
    rcases List.mem_cons.1 hu with rfl | hu
    · cases hfault
    · exact ih hy u hu hfault
  | quotient a b iha ihb =>
    obtain ⟨y, z, hy, hz, hne, rfl⟩ := exact_quotient_eq_ok h
    rintro u hu hfault
    rcases List.mem_cons.1 hu with rfl | hu
    · cases hfault with
      | zeroDivisor hb =>
        obtain ⟨hdenotes, hshows⟩ := denotes_of_exact hz
        exact hne (hshows (hdenotes.unique hb))
    · rcases List.mem_append.1 hu with hu | hu
      · exact iha hy u hu hfault
      · exact ihb hz u hu hfault
  | root index p =>
    obtain ⟨hp, hindex, -⟩ := exact_root_eq_ok h
    rintro u hu hfault
    obtain rfl := List.mem_singleton.1 hu
    cases hfault with
    | zeroPolynomial hzero => exact hp (Poly.trim_eq_nil_iff.2 hzero)
    | rootIndex _ hrange => exact hrange hindex
    | unwritable _ hrange => exact hrange hindex
  | unknown s => cases h

/-! ## 4. Whole values -/

/-- A polynomial with the same real roots has the same root with every number. -/
theorem exact_root_congr (hq : ∃ c ∈ q, c ≠ 0)
    (hroots : ∀ x : ℝ, q.valueIn x = 0 ↔ p.valueIn x = 0) (h : (root index p).exact = .ok x) :
    ∃ y, (root index q).exact = .ok y ∧ y.value = x.value := by
  obtain ⟨hp, hindex, rfl⟩ := exact_root_eq_ok h
  have hne := exists_ne_zero_iff.1 hq
  obtain ⟨r, hr⟩ := exists_root hp hindex
  have hrange : q.HasIndex index := by
    simp only [Poly.HasIndex, hroots]
    exact hindex
  have hsame : q.IsNthRoot index.toNat r := by
    refine ⟨(hroots r).2 hr.root, ?_⟩
    simp only [hroots]
    exact hr.below
  refine ⟨_, exact_root_of_hasIndex hne hrange, ?_⟩
  rw [Algebraic.value_ofRoot hne hsame, Algebraic.value_ofRoot hp hr]

/-- **The number that a value denotes.** There is one exactly if nothing is wrong with any part of
    the value: no part is a term that says nothing, no divisor denotes zero, and every root object
    has a polynomial other than zero and a root with its index. What is found is then the only
    number that the value denotes. Otherwise the fault is one of some part, and it describes that
    part, unless the part is a root object without that root whose index or polynomial is too long
    to be written. The root of a root object depends on nothing but the real roots of the
    polynomial, so that neither zeros in front nor multiplicities matter. -/
theorem exact_denotes (v : ModelValue) :
    ((∃ a, v.exact = .ok a) ↔ ∀ u ∈ v.parts, ∀ f, ¬ u.HasFault f) ∧
    (∀ a, v.exact = .ok a → ∀ r, v.Denotes r ↔ r = a.value) ∧
    (∀ f, v.exact = .error f → (∃ u ∈ v.parts, u.HasFault f) ∧
      (f.IsReported ∨ ∃ index p, root index p ∈ v.parts ∧ ¬ p.HasIndex index ∧
        ¬ p.IsWritableWith index)) ∧
    ∀ index p a, v = root index p → v.exact = .ok a → ∀ q : Poly, (∃ c ∈ q, c ≠ 0) →
      (∀ x : ℝ, q.valueIn x = 0 ↔ p.valueIn x = 0) →
        ∃ b, (root index q).exact = .ok b ∧ b.value = a.value := by
  refine ⟨⟨?_, ?_⟩, ?_, ?_, ?_⟩
  · rintro ⟨a, h⟩ u hu f
    exact not_hasFault_of_exact h u hu
  · intro hnone
    cases h : v.exact with
    | ok a => exact ⟨a, rfl⟩
    | error f =>
      obtain ⟨u, hu, hfault⟩ := hasFault_of_exact h
      exact absurd hfault (hnone u hu f)
  · intro a h r
    have hdenotes := (denotes_of_exact h).1
    exact ⟨fun hr => hr.unique hdenotes, fun hr => hr ▸ hdenotes⟩
  · intro f h
    obtain ⟨u, hu, hfault⟩ := hasFault_of_exact h
    refine ⟨⟨u, hu, hfault⟩, ?_⟩
    cases hfault with
    | unwritable _ hindex hlong => exact .inr ⟨_, _, hu, hindex, hlong⟩
    | _ => exact .inl trivial
  · rintro index p a rfl h q hq hroots
    exact exact_root_congr hq hroots h

/-- The second real root of the square of `x ^ 2 - 2`, with a zero in front. -/
example : (root 2 [0, 1, 0, -4, 0, 4]).exact = .ok (.root [1, 0, -2] 2) := by decide +kernel

/-- An index out of range that is too long to be written is not reported. -/
theorem long_index_is_not_reported :
    (root (10 ^ digitLimit) [1, 1]).exact = .error .unwritable ∧
      ¬ ValueFault.unwritable.IsReported ∧ ¬ Poly.HasIndex [1, 1] (10 ^ digitLimit) := by
  have hcount : Poly.rootCount [1, 1] = 1 := by decide +kernel
  have hlarge : ¬ (10 ^ digitLimit : Int) ≤ 1 := not_le.2 (one_lt_pow₀ (by decide) (by decide))
  have hlong : isWritable (10 ^ digitLimit) = false := Bool.eq_false_iff.2 not_isWritable_pow
  have hindex : ¬ (1 ≤ (10 ^ digitLimit : Int) ∧
      (10 ^ digitLimit : Int) ≤ (Poly.rootCount [1, 1] : Nat)) := by
    rw [hcount]
    exact fun h => hlarge h.2
  refine ⟨?_, not_false, (hasIndex_iff (by decide)).not.2 hindex⟩
  rw [exact, rootNumber, if_neg (by decide), if_neg hindex, hlong, Bool.false_and]
  rfl

end ModelValue

end Credal
