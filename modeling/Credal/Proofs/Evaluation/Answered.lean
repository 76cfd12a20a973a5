import Credal.Proofs.Evaluation.Guarded
import Credal.Proofs.Language.Places

/-!
# Evaluations that are answered

Where the table has the letters of a tree, and the states and the variables of the tree have values,
an evaluation comes to a value or divides by zero. It has no third end but the fault of a value that
is past all numbers, and this only if such a value was given.

* `Assignment.Supplies`: values for the states of a table and for some variables;
* `Answered`: the ends that are left;
* `RealExpr.answered_evaluate`, `Constraint.answered_evaluate`: evaluation;
* `RealExpr.answered_outcome`, `Constraint.answered_outcome`: the search and the evaluation.
-/

namespace Credal

variable {α β γ δ : Type}

/-- All states of a table and the listed real variables have values. -/
structure Assignment.Supplies (v : Assignment α) (t : TruthTable) (names : List String) :
    Prop where
  states : ∀ i < t.stateCount, (v.state (i : Int)).isSome = true
  reals : ∀ x ∈ names, (v.real x).isSome = true

/-- Some value is past all numbers of the number system. -/
def Assignment.HasTooLarge (v : Assignment α) : Prop :=
  (∃ i, v.state i = some .tooLarge) ∨ ∃ x, v.real x = some .tooLarge

/-- A value, a division by zero, or the fault of a value past all numbers that was given. -/
inductive Answered (v : Assignment α) : Except AssignmentFault (Outcome β) → Prop where
  | value (b : β) : Answered v (.ok (.ok b))
  | zeroDivision : Answered v (.ok (.error .divisionByZero))
  | tooLarge (h : v.HasTooLarge) : Answered v (.error .tooLarge)

/-- What an evaluation looks up in a node has a value. -/
def Node.HasValues (v : Assignment α) : Node → Prop
  | .real (.var x) => (v.real x).isSome = true
  | .real (.stateSum is) => ∀ i ∈ is, (v.state i).isSome = true
  | _ => True

/-- The variables and the sums of states of a node are what is looked up in it. -/
theorem Node.everywhere_hasValues {v : Assignment α} {n : Node}
    (hreals : ∀ x ∈ n.reals, (v.real x).isSome = true)
    (hsums : ∀ p is, n.part? p = some (.real (.stateSum is)) →
      ∀ i ∈ is, (v.state i).isSome = true) : n.Everywhere (·.HasValues v) := by
  intro p s hs
  unfold HasValues
  split
  · exact hreals _ (mem_reals_iff.2 ⟨p, hs⟩)
  · exact hsums p _ hs
  · trivial

variable {A : Arithmetic α} {t : TruthTable} {v : Assignment α}

namespace Answered

theorem map {r : Except AssignmentFault (Outcome β)} {f : β → γ} (h : Answered v r) :
    Answered v (do .ok ((← r).map f)) := by
  cases h with
  | value b => exact .value (f b)
  | zeroDivision => exact .zeroDivision
  | tooLarge h => exact .tooLarge h

/-- **Two parts** are answered, and so is the operation on their values. -/
theorem combine {r : Except AssignmentFault (Outcome β)} {r' : Except AssignmentFault (Outcome γ)}
    {f : β → γ → Outcome δ} (h : Answered v r) (h' : Answered v r')
    (hf : ∀ x y, Answered v (.ok (f x y))) :
    Answered v (do
      let a ← r
      let b ← r'
      .ok (Outcome.combine f a b)) := by
  cases h with
  | tooLarge h => exact .tooLarge h
  | value x =>
    cases h' with
    | value y => exact hf x y
    | zeroDivision => exact .zeroDivision
    | tooLarge h' => exact .tooLarge h'
  | zeroDivision =>
    cases h' with
    | value y => exact .zeroDivision
    | zeroDivision => exact .zeroDivision
    | tooLarge h' => exact .tooLarge h'

theorem quotient (x y : α) : Answered v (.ok (A.quotient x y)) := by
  unfold Arithmetic.quotient
  split
  · exact .value _
  · exact .zeroDivision

/-- The quotient of two numbers that are looked up. -/
theorem quotientOf {r r' : Except AssignmentFault α}
    (h : Answered v (do .ok (Except.ok (← r) : Outcome α)))
    (h' : Answered v (do .ok (Except.ok (← r') : Outcome α))) :
    Answered v (do
      let x ← r
      let y ← r'
      .ok (A.quotient x y)) := by
  have hboth := h.combine h' (Answered.quotient (A := A))
  cases r with
  | error f => exact hboth
  | ok x =>
    cases r' with
    | error f => exact hboth
    | ok y => exact hboth

end Answered

/-! ## 1. Sums of states -/

namespace Assignment

theorem answered_sumFrom {is : List Int} (h : ∀ i ∈ is, (v.state i).isSome = true) (total : α) :
    Answered v (do .ok (Except.ok (← sumFrom A v total is) : Outcome α)) := by
  induction is generalizing total with
  | nil => exact .value total
  | cons i rest ih =>
    obtain ⟨hi, hrest⟩ := List.forall_mem_cons.1 h
    obtain ⟨x, hx⟩ := Option.isSome_iff_exists.1 hi
    rw [sumFrom, hx]
    cases x with
    | number a => exact ih hrest (A.add total a)
    | tooLarge => exact .tooLarge (.inl ⟨i, hx⟩)

/-- The states of a sentence are states of the table. -/
theorem answered_mass (hv : ∀ i < t.stateCount, (v.state (i : Int)).isSome = true) (S : Sentence) :
    Answered v (do .ok (Except.ok (← v.mass A t S) : Outcome α)) := by
  unfold mass
  simp only
  split
  · exact .value _
  · refine answered_sumFrom (fun i hi => ?_) _
    obtain ⟨k, hk, rfl⟩ := List.mem_map.1 hi
    exact hv k (List.mem_range.1 (List.mem_filter.1 hk).1)

end Assignment

/-! ## 2. Trees -/

/-- **An expression is answered** if what is looked up has values. -/
theorem RealExpr.answered_evaluate {e : RealExpr}
    (hstates : ∀ i < t.stateCount, (v.state (i : Int)).isSome = true)
    (he : (Node.real e).Everywhere (·.HasValues v)) : Answered v (e.evaluate A t v) := by
  induction e with
  | literal x => exact .value (A.ofDouble x)
  | var name =>
    obtain ⟨x, hx⟩ := Option.isSome_iff_exists.1 ((Node.everywhere_leaf rfl).1 he)
    rw [evaluate, hx]
    cases x with
    | number a => exact .value a
    | tooLarge => exact .tooLarge (.inr ⟨name, hx⟩)
  | stateSum is => exact Assignment.answered_sumFrom ((Node.everywhere_leaf rfl).1 he) _
  | probability S => exact Assignment.answered_mass hstates S
  | given S T =>
    exact (Assignment.answered_mass hstates _).quotientOf (Assignment.answered_mass hstates T)
  | negative e ih => exact (ih ((Node.everywhere_single rfl).1 he).2).map
  | arith op a b iha ihb =>
    obtain ⟨-, ha, hb⟩ := (Node.everywhere_pair rfl).1 he
    exact (iha ha).combine (ihb hb) fun x y => .value _
  | divide a b iha ihb =>
    obtain ⟨-, ha, hb⟩ := (Node.everywhere_pair rfl).1 he
    exact (iha ha).combine (ihb hb) .quotient
  | power a b iha ihb =>
    obtain ⟨-, ha, hb⟩ := (Node.everywhere_pair rfl).1 he
    exact (iha ha).combine (ihb hb) fun x y => .value _

/-- **A constraint is answered** if what is looked up has values. -/
theorem Constraint.answered_evaluate {c : Constraint}
    (hstates : ∀ i < t.stateCount, (v.state (i : Int)).isSome = true)
    (hc : (Node.constraint c).Everywhere (·.HasValues v)) : Answered v (c.evaluate A t v) := by
  induction c with
  | compare r a b =>
    obtain ⟨-, ha, hb⟩ := (Node.everywhere_pair rfl).1 hc
    exact (RealExpr.answered_evaluate hstates ha).combine (RealExpr.answered_evaluate hstates hb)
      fun x y => .value _
  | negation c ih => exact (ih ((Node.everywhere_single rfl).1 hc).2).map
  | binary k c d ihc ihd =>
    obtain ⟨-, hc, hd⟩ := (Node.everywhere_pair rfl).1 hc
    exact (ihc hc).combine (ihd hd) fun x y => .value _

/-! ## 3. Outcomes -/

/-- A node without sums of states looks up the values of its variables only. -/
theorem Assignment.Supplies.everywhere_hasValues
    {n : Node} (hsums : ∀ p is, n.part? p = some (.real (.stateSum is)) → is = [])
    (hv : v.Supplies t n.reals) : n.Everywhere (·.HasValues v) := by
  refine Node.everywhere_hasValues hv.reals fun p is hp => ?_
  rw [hsums p is hp]
  exact List.forall_mem_nil _

theorem RealExpr.answered_outcome {e : RealExpr} (hletters : e.letters ⊆ t.letters)
    (hsums : ∀ p is, (Node.real e).part? p = some (.real (.stateSum is)) → is = [])
    (hv : v.Supplies t e.reals) : Answered v (e.outcome A t v) := by
  have hdeclared : (Node.real e).Declared t v := ⟨fun _ hl => hletters hl, hv.reals⟩
  rw [outcome, unlessUndeclared_eq hdeclared]
  exact answered_evaluate hv.states (hv.everywhere_hasValues (n := .real e) hsums)

theorem Constraint.answered_outcome {c : Constraint} (hletters : c.letters ⊆ t.letters)
    (hsums : ∀ p is, (Node.constraint c).part? p = some (.real (.stateSum is)) → is = [])
    (hv : v.Supplies t c.reals) : Answered v (c.outcome A t v) := by
  have hdeclared : (Node.constraint c).Declared t v := ⟨fun _ hl => hletters hl, hv.reals⟩
  rw [outcome, unlessUndeclared_eq hdeclared]
  exact answered_evaluate hv.states (hv.everywhere_hasValues (n := .constraint c) hsums)

end Credal
