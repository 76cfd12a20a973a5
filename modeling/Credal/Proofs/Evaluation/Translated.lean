import Credal.Exact.Enclosed
import Credal.Proofs.Evaluation.Guarded
import Credal.Proofs.Translation.Normal

/-!
# Evaluation of a translation

An evaluation translates each probability when it comes to it; a translation has done so before. So
a node and its translation have the same outcome, failures and faults included, in any number
system and for any values. The search for undeclared variables sees different nodes: it meets the
same real variables in both, but letters in the node only. There is no difference if the table has
the letters.

* `TruthTable.evaluate_mass`: the mass of a sentence as an expression;
* `RealExpr.evaluate_translate`, `Constraint.evaluate_translate`: evaluation, by induction on the
  tree;
* `undeclared_translate`: the search;
* `translation_preserves_outcome`: both together.
-/

namespace Credal

variable {α : Type} {A : Arithmetic α} {t : TruthTable} {v : Assignment α}

/-! ## 1. Evaluation -/

/-- **The mass of a sentence** is looked up as the sum that it is written as. -/
theorem TruthTable.evaluate_mass (t : TruthTable) (S : Sentence) :
    (t.mass S).evaluate A t v = (do .ok (.ok (← v.mass A t S))) := by
  unfold mass Assignment.mass
  simp only
  split
  · rfl
  · rfl

/-- A conditional probability is the quotient of two masses. -/
theorem RealExpr.evaluate_given (S T : Sentence) :
    (RealExpr.divide (t.mass (.binary .conjunction S T)) (t.mass T)).evaluate A t v =
      (RealExpr.given S T).evaluate A t v := by
  rw [evaluate, evaluate, t.evaluate_mass, t.evaluate_mass]
  cases v.mass A t (.binary .conjunction S T) with
  | error f => rfl
  | ok a =>
    cases v.mass A t T with
    | error f => rfl
    | ok b => rfl

theorem RealExpr.evaluate_translate (e : RealExpr) :
    (e.translate t).evaluate A t v = e.evaluate A t v := by
  induction e with
  | literal x => rfl
  | var name => rfl
  | stateSum is => rfl
  | probability S => exact t.evaluate_mass S
  | given S T => exact evaluate_given S T
  | negative e ih => rw [translate, evaluate, evaluate, ih]
  | arith op a b iha ihb => rw [translate, evaluate, evaluate, iha, ihb]
  | divide a b iha ihb => rw [translate, evaluate, evaluate, iha, ihb]
  | power a b iha ihb => rw [translate, evaluate, evaluate, iha, ihb]

theorem Constraint.evaluate_translate (c : Constraint) :
    (c.translate t).evaluate A t v = c.evaluate A t v := by
  induction c with
  | compare r a b =>
    rw [translate, evaluate, evaluate, a.evaluate_translate, b.evaluate_translate]
  | negation c ih => rw [translate, evaluate, evaluate, ih]
  | binary k c d ihc ihd => rw [translate, evaluate, evaluate, ihc, ihd]

/-! ## 2. Outcomes -/

/-- **The search finds the same** in a translation if the table has all letters of the node. -/
theorem undeclared_translate {n : Node} (h : n.letters ⊆ t.letters) :
    undeclared t v (n.translate t) = undeclared t v n := by
  have hreals : (undeclared t v (n.translate t)).reals = (undeclared t v n).reals := by
    simp only [undeclared, variablesOf, List.flatMap_singleton, n.reals_translate]
  have hletters : (undeclared t v (n.translate t)).letters = (undeclared t v n).letters := by
    have hnone : (n.translate t).letters = [] :=
      Node.letters_of_isTranslated (n.isTranslated_translate t)
    rw [undeclared_letters_eq_nil h, undeclared_letters_eq_nil]
    rw [hnone]
    exact List.nil_subset _
  exact congrArg₂ Variables.mk hreals hletters

theorem unlessUndeclared_translate {β : Type} {n : Node} (h : n.letters ⊆ t.letters)
    (e : Except AssignmentFault (Outcome β)) :
    unlessUndeclared t v (n.translate t) e = unlessUndeclared t v n e := by
  unfold unlessUndeclared
  rw [undeclared_translate h]

/-- **Translation preserves the outcome** of an evaluation, be it a value, a failure or a fault of
    the assignment, if the table has all letters of the tree. The number system may be that of
    doubles, with any tolerance, or that of exact numbers. -/
theorem translation_preserves_outcome (A : Arithmetic α) (t : TruthTable) (v : Assignment α) :
    (∀ e : RealExpr, e.letters ⊆ t.letters → (e.translate t).outcome A t v = e.outcome A t v) ∧
    ∀ c : Constraint, c.letters ⊆ t.letters → (c.translate t).outcome A t v = c.outcome A t v := by
  constructor
  · intro e he
    unfold RealExpr.outcome
    rw [e.evaluate_translate]
    exact unlessUndeclared_translate (n := .real e) he _
  · intro c hc
    unfold Constraint.outcome
    rw [c.evaluate_translate]
    exact unlessUndeclared_translate (n := .constraint c) hc _

/-- A probability under a condition without mass divides by zero, before translation and after. -/
theorem translation_preserves_outcome_of_given :
    let t : TruthTable := ⟨[⟨"P", 0⟩], List.nodup_singleton _⟩
    let v : Assignment Exact := .ofLists [(0, .ofRat 1), (1, .ofRat 0)] []
    let P : Sentence := .letter ⟨"P", 0⟩
    let e : RealExpr := .given P (.negation P)
    e.letters ⊆ t.letters ∧ e.outcome (.exact .enclosing) t v = .ok (.error .divisionByZero) ∧
      (e.translate t).outcome (.exact .enclosing) t v = .ok (.error .divisionByZero) := by
  intro t v P e
  have hletters : e.letters ⊆ t.letters := by decide
  have houtcome : e.outcome (.exact .enclosing) t v = .ok (.error .divisionByZero) := by
    decide +kernel
  refine ⟨hletters, houtcome, ?_⟩
  rw [(translation_preserves_outcome (.exact .enclosing) t v).1 e hletters, houtcome]

end Credal
