import Credal.Proofs.Evaluation.Classified

/-!
# Complete assignments

An assignment is complete for a tree if all states of the table and all real variables of the tree
have numbers. Then an evaluation, in whatever numbers, cannot fail but by a division by zero.

* `Assignment.Complete`: complete assignments;
* `Assignment.Complete.looksUpNumbers`: what an evaluation looks up;
* `Settles`, `Constraint.settles_outcome`: a value or a division by zero.
-/

namespace Credal

variable {α β : Type}

/-- All states of a table and the listed real variables have numbers. -/
structure Assignment.Complete (v : Assignment α) (t : TruthTable) (names : List String) :
    Prop where
  states : ∀ i < t.stateCount, ∃ a, v.state (i : Int) = some (.number a)
  reals : ∀ x ∈ names, ∃ a, v.real x = some (.number a)

/-- A value or a division by zero, and no other failure. -/
def Settles (r : Except AssignmentFault (Outcome α)) : Prop :=
  (∃ a, r = .ok (.ok a)) ∨ r = .ok (.error .divisionByZero)

theorem Guarded.settles {g : Prop} {P : β → Prop} {r : Except AssignmentFault (Outcome β)}
    (h : Guarded g P r) : Settles r := by
  cases h with
  | value _ a _ => exact Or.inl ⟨a, rfl⟩
  | zeroDivision _ => exact Or.inr rfl

variable {A : Arithmetic α} {zero : α → Prop} {t : TruthTable} {v : Assignment α}

namespace Assignment.Complete

variable {names : List String}

theorem mono {names' : List String} (hv : v.Complete t names') (h : names ⊆ names') :
    v.Complete t names :=
  ⟨hv.states, fun x hx => hv.reals x (h hx)⟩

/-- The sums that translation brings in are sums of states of the table. -/
theorem looksUpNumbers {n : Node} (hv : v.Complete t n.reals) (hn : n.isSource = true) :
    (n.translate t).Everywhere (·.LooksUpNumbers v) := by
  refine Node.looksUpNumbers_translate (fun p is hp i hi => ?_) hv.reals
  obtain ⟨k, hk, rfl⟩ := (Node.properSum_of_isSource hn hp).exists_state hi
  exact hv.states k hk

end Assignment.Complete

/-- **A constraint is true, false or divides by zero** where the table has its letters, and all
    states and its variables have numbers. -/
theorem Constraint.settles_outcome {c : Constraint}
    (hzero : ∀ x z, A.divide? x z = none ↔ zero z) (hv : v.Complete t c.reals)
    (hletters : ∀ l ∈ c.letters, l ∈ t.letters) (hc : c.isSource = true) :
    Settles (c.outcome A t v) := by
  have hdeclared : (Node.constraint c).Declared t v := by
    refine ⟨hletters, fun x hx => ?_⟩
    obtain ⟨a, ha⟩ := hv.reals x hx
    rw [ha]
    rfl
  rw [outcome, unlessUndeclared_eq hdeclared, ← c.evaluate_translate]
  exact (Constraint.guarded_neverByZero hzero (c.isTranslated_translate t)
    (Assignment.Complete.looksUpNumbers (n := .constraint c) hv hc)).settles

end Credal
