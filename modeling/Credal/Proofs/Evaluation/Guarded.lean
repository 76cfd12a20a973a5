import Credal.Evaluation.Evaluate
import Mathlib

/-!
# Evaluations that can only divide by zero

Where all variables have values and all states are there, an evaluation can fail in one way only.
`Guarded g P r` says that of a result `r`: under the condition `g` it is a value with the property
`P`, and without the condition it is a division by zero. Every part is evaluated, so the condition
of a compound is that of all its parts.

* `Guarded.map`, `Guarded.combine`: one part, two parts;
* `Guarded.eq_true_iff`: when the result is true;
* `Node.Declared`: the table has all letters and all variables have values, and
  `isEmpty_undeclared_iff`: the search before an evaluation finds nothing exactly then.
-/

namespace Credal

/-! ## 1. Conditions -/

variable {α β γ : Type} {g g₁ g₂ g₃ : Prop} {P : α → Prop} {Q : β → Prop} {S : γ → Prop}

/-- A value with a property under a condition, a division by zero without it. -/
inductive Guarded (g : Prop) (P : α → Prop) : Except AssignmentFault (Outcome α) → Prop where
  | value (h : g) (a : α) (ha : P a) : Guarded g P (.ok (.ok a))
  | zeroDivision (h : ¬ g) : Guarded g P (.ok (.error .divisionByZero))

namespace Guarded

theorem congr {g' : Prop} {P' : α → Prop} {r : Except AssignmentFault (Outcome α)}
    (h : Guarded g P r) (hg : g ↔ g') (hP : ∀ a, P a → P' a) : Guarded g' P' r := by
  cases h with
  | value hg' a ha => exact .value (hg.1 hg') a (hP a ha)
  | zeroDivision hg' => exact .zeroDivision (mt hg.2 hg')

theorem map {r : Except AssignmentFault (Outcome α)} {f : α → β} (h : Guarded g P r)
    (hf : ∀ a, P a → Q (f a)) : Guarded g Q (do .ok ((← r).map f)) := by
  cases h with
  | value hg a ha => exact .value hg (f a) (hf a ha)
  | zeroDivision hg => exact .zeroDivision hg

/-- **Two parts**: the conditions of both, and that of the operation on their values. -/
theorem combine {r₁ : Except AssignmentFault (Outcome α)} {r₂ : Except AssignmentFault (Outcome β)}
    {f : α → β → Outcome γ} (h₁ : Guarded g₁ P r₁) (h₂ : Guarded g₂ Q r₂)
    (hf : ∀ a b, P a → Q b → Guarded g₃ S (.ok (f a b))) :
    Guarded (g₃ ∧ g₁ ∧ g₂) S (do
      let a ← r₁
      let b ← r₂
      .ok (Outcome.combine f a b)) := by
  cases h₁ with
  | zeroDivision n₁ =>
    cases h₂ with
    | zeroDivision n₂ => exact .zeroDivision fun h => n₁ h.2.1
    | value g₂ b hb => exact .zeroDivision fun h => n₁ h.2.1
  | value y₁ a ha =>
    cases h₂ with
    | zeroDivision n₂ => exact .zeroDivision fun h => n₂ h.2.2
    | value y₂ b hb =>
      refine (hf a b ha hb).congr ⟨fun h => ⟨h, y₁, y₂⟩, fun h => h.1⟩ fun _ h => h

/-- A value has the property of being the result. -/
theorem self {r : Except AssignmentFault (Outcome α)} (h : Guarded g P r) :
    Guarded g (fun a => r = .ok (.ok a)) r := by
  cases h with
  | value hg a _ => exact .value hg a rfl
  | zeroDivision hg => exact .zeroDivision hg

/-- A truth value that is known under the condition. -/
theorem eq_true_iff {r : Except AssignmentFault (Outcome Bool)} {b : Bool}
    (h : Guarded g (· = b) r) : r = .ok (.ok true) ↔ g ∧ b = true := by
  cases h with
  | value hg a ha =>
    rw [ha, Except.ok.injEq, Except.ok.injEq]
    exact (and_iff_right hg).symm
  | zeroDivision hg => exact ⟨nofun, fun h => absurd h.1 hg⟩

end Guarded

/-! ## 2. Declared variables -/

/-- The table has the letters of a node, and its real variables have values. -/
structure Node.Declared (t : TruthTable) (v : Assignment α) (n : Node) : Prop where
  letters : ∀ l ∈ n.letters, l ∈ t.letters
  reals : ∀ x ∈ n.reals, (v.real x).isSome = true

section Search

variable {t : TruthTable} {v : Assignment α} {n : Node}

theorem mem_undeclared_reals {x : String} :
    x ∈ (undeclared t v n).reals ↔ x ∈ n.reals ∧ v.real x = none := by
  rw [undeclared, List.mem_filter, variablesOf, mem_distinct, List.flatMap_singleton,
    Option.isNone_iff_eq_none]

theorem mem_undeclared_letters {l : Letter} :
    l ∈ (undeclared t v n).letters ↔ l ∈ n.letters ∧ l ∉ t.letters := by
  rw [undeclared, List.mem_filter, variablesOf, mem_distinct, List.flatMap_singleton,
    Bool.not_eq_true', ← Bool.not_eq_true, List.contains_iff_mem]

/-- A table that has all letters of a node finds none of them undeclared. -/
theorem undeclared_letters_eq_nil (h : n.letters ⊆ t.letters) :
    (undeclared t v n).letters = [] := by
  refine List.eq_nil_iff_forall_not_mem.2 fun l hl => ?_
  obtain ⟨hmem, hnot⟩ := mem_undeclared_letters.1 hl
  exact hnot (h hmem)

/-- **The search finds nothing exactly if all variables are declared.** -/
theorem isEmpty_undeclared_iff : (undeclared t v n).isEmpty = true ↔ n.Declared t v := by
  rw [Variables.isEmpty, Bool.and_eq_true, List.isEmpty_iff, List.isEmpty_iff]
  constructor
  · intro h
    obtain ⟨hreals, hletters⟩ := h
    refine ⟨fun l hl => ?_, fun x hx => ?_⟩
    · by_contra hnot
      exact List.eq_nil_iff_forall_not_mem.1 hletters l (mem_undeclared_letters.2 ⟨hl, hnot⟩)
    · by_contra hnot
      exact List.eq_nil_iff_forall_not_mem.1 hreals x
        (mem_undeclared_reals.2 ⟨hx, Option.not_isSome_iff_eq_none.1 hnot⟩)
  · intro h
    refine ⟨List.eq_nil_iff_forall_not_mem.2 fun x hx => ?_, undeclared_letters_eq_nil h.letters⟩
    obtain ⟨hmem, hnone⟩ := mem_undeclared_reals.1 hx
    exact Option.ne_none_iff_isSome.2 (h.reals x hmem) hnone

/-- An evaluation goes on if all variables are declared. -/
theorem unlessUndeclared_eq (h : n.Declared t v) (e : Except AssignmentFault (Outcome β)) :
    unlessUndeclared t v n e = e :=
  if_pos (isEmpty_undeclared_iff.2 h)

/-- It ends with the undeclared variables otherwise. -/
theorem unlessUndeclared_eq_error (h : ¬ n.Declared t v) (e : Except AssignmentFault (Outcome β)) :
    unlessUndeclared t v n e = .ok (.error (.undeclared (undeclared t v n))) :=
  if_neg (mt isEmpty_undeclared_iff.1 h)

end Search

end Credal
