import Credal.Proofs.StateSpace.Marginal
import Credal.Proofs.Translation.Form

/-!
# Evaluation over a larger table

A tree over the letters of a table has the same outcome over every larger table, whatever the order
of its letters, if the states of the smaller table have the marginal values. So a problem is
satisfiable over the one exactly if it is over the other.

* `TruthTable.share_marginal`: the mass of a sentence;
* `RealExpr.evaluate_marginal`, `Constraint.evaluate_marginal`: the value, by induction on the tree;
* `RealExpr.outcome_marginal`, `Constraint.outcome_marginal`: the outcome with its search for
  undeclared variables;
* `SatisfiableOver`, `satisfiableOver_iff`: problems.
-/

namespace Credal

open Credal.Number

variable {sys : AlgebraSystem} {t t' : TruthTable} {S : Sentence}

/-! ## 1. Values -/

/-- **The mass of a sentence is that of its marginal**, also where it is true in all states and
    counts as one whatever their values are. -/
theorem TruthTable.share_marginal (h : t.letters ⊆ t'.letters) (s' : Nat → ℚ)
    (hS : S.letters ⊆ t.letters) : t.share (t.marginal t' s') S = t'.share s' S := by
  unfold share
  rw [sum_dnf, sum_dnf, sum_marginal t' s' hS]
  exact if_congr (length_dnf_marginal_iff h hS) rfl rfl

/-- The states of two tables have the values of a marginal, and the real variables the same
    values. -/
structure Assignment.Restricts (t t' : TruthTable) (v v' : Assignment Exact) (s' : Nat → ℚ) :
    Prop where
  letters : t.letters ⊆ t'.letters
  marginal : v.Gives t (t.marginal t' s')
  states : v'.Gives t' s'
  real : v.real = v'.real

namespace Assignment.Restricts

variable {v v' : Assignment Exact} {s' : Nat → ℚ}

theorem mass_eq (hv : Restricts t t' v v' s') (hS : S.letters ⊆ t.letters) :
    v.mass (.exact sys) t S = v'.mass (.exact sys) t' S := by
  rw [TruthTable.mass_eq hv.marginal, TruthTable.mass_eq hv.states,
    TruthTable.share_marginal hv.letters s' hS]

end Assignment.Restricts

variable {v v' : Assignment Exact} {s' : Nat → ℚ}

/-- **An expression has the same value** over both tables. -/
theorem RealExpr.evaluate_marginal (hv : v.Restricts t t' v' s') {e : RealExpr}
    (he : e.isSource = true) (hl : e.letters ⊆ t.letters) :
    e.evaluate (.exact sys) t v = e.evaluate (.exact sys) t' v' := by
  induction e with
  | literal x => rfl
  | var name => rw [evaluate, evaluate, hv.real]
  | stateSum is => exact absurd he Bool.false_ne_true
  | probability S => rw [evaluate, evaluate, hv.mass_eq hl]
  | given S T =>
    have hT : T.letters ⊆ t.letters := (List.append_subset.1 hl).2
    have hboth : (Sentence.binary .conjunction S T).letters ⊆ t.letters := hl
    rw [evaluate, evaluate, hv.mass_eq hboth, hv.mass_eq hT]
  | negative e ih => rw [evaluate, evaluate, ih he hl]
  | arith op a b iha ihb =>
    obtain ⟨ha, hb⟩ := Bool.and_eq_true_iff.1 he
    obtain ⟨hla, hlb⟩ := List.append_subset.1 hl
    rw [evaluate, evaluate, iha ha hla, ihb hb hlb]
  | divide a b iha ihb =>
    obtain ⟨ha, hb⟩ := Bool.and_eq_true_iff.1 he
    obtain ⟨hla, hlb⟩ := List.append_subset.1 hl
    rw [evaluate, evaluate, iha ha hla, ihb hb hlb]
  | power a b iha ihb =>
    obtain ⟨ha, hb⟩ := Bool.and_eq_true_iff.1 he
    obtain ⟨hla, hlb⟩ := List.append_subset.1 hl
    rw [evaluate, evaluate, iha ha hla, ihb hb hlb]

/-- **A constraint has the same truth value** over both tables. -/
theorem Constraint.evaluate_marginal (hv : v.Restricts t t' v' s') {c : Constraint}
    (hc : c.isSource = true) (hl : c.letters ⊆ t.letters) :
    c.evaluate (.exact sys) t v = c.evaluate (.exact sys) t' v' := by
  induction c with
  | compare r a b =>
    obtain ⟨ha, hb⟩ := Bool.and_eq_true_iff.1 hc
    obtain ⟨hla, hlb⟩ := List.append_subset.1 hl
    rw [evaluate, evaluate, RealExpr.evaluate_marginal hv ha hla,
      RealExpr.evaluate_marginal hv hb hlb]
  | negation c ih => rw [evaluate, evaluate, ih hc hl]
  | binary k c d ihc ihd =>
    obtain ⟨hc, hd⟩ := Bool.and_eq_true_iff.1 hc
    obtain ⟨hlc, hld⟩ := List.append_subset.1 hl
    rw [evaluate, evaluate, ihc hc hlc, ihd hd hld]

/-! ## 2. Outcomes -/

theorem undeclared_marginal (hv : v.Restricts t t' v' s') {n : Node}
    (hl : n.letters ⊆ t.letters) : undeclared t v n = undeclared t' v' n := by
  have hreals : (undeclared t v n).reals = (undeclared t' v' n).reals := by
    simp only [undeclared, hv.real]
  have hletters : (undeclared t v n).letters = (undeclared t' v' n).letters := by
    rw [undeclared_letters_eq_nil hl,
      undeclared_letters_eq_nil fun _ hmem => hv.letters (hl hmem)]
  exact congrArg₂ Variables.mk hreals hletters

theorem RealExpr.outcome_marginal (hv : v.Restricts t t' v' s') {e : RealExpr}
    (he : e.isSource = true) (hl : e.letters ⊆ t.letters) :
    e.outcome (.exact sys) t v = e.outcome (.exact sys) t' v' := by
  unfold outcome unlessUndeclared
  rw [undeclared_marginal hv (n := .real e) hl, evaluate_marginal hv he hl]

theorem Constraint.outcome_marginal (hv : v.Restricts t t' v' s') {c : Constraint}
    (hc : c.isSource = true) (hl : c.letters ⊆ t.letters) :
    c.outcome (.exact sys) t v = c.outcome (.exact sys) t' v' := by
  unfold outcome unlessUndeclared
  rw [undeclared_marginal hv (n := .constraint c) hl, evaluate_marginal hv hc hl]

/-! ## 3. Problems -/

/-- A distribution of rational values and values of the variables make all constraints true. -/
def SatisfiableOver (sys : AlgebraSystem) (t : TruthTable) (regular : Bool)
    (cs : List Constraint) : Prop :=
  ∃ (s : Nat → ℚ) (v : Assignment Exact), t.IsDistribution regular s ∧ v.Gives t s ∧
    ∀ c ∈ cs, c.outcome (.exact sys) t v = .ok (.ok true)

/-- The values of the states with the real variables of another assignment. -/
def Assignment.withStates (v : Assignment Exact) (s : Nat → ℚ) : Assignment Exact :=
  ⟨fun i => some (.number (.ofRat (s i.toNat))), v.real⟩

theorem Assignment.gives_withStates (v : Assignment Exact) (t : TruthTable) (s : Nat → ℚ) :
    (v.withStates s).Gives t s :=
  fun _ _ => rfl

/-- **A problem is satisfiable over both tables or over none.** -/
theorem satisfiableOver_iff (h : t.letters ⊆ t'.letters) (regular : Bool) {cs : List Constraint}
    (hcs : ∀ c ∈ cs, c.isSource = true ∧ c.letters ⊆ t.letters) :
    SatisfiableOver sys t regular cs ↔ SatisfiableOver sys t' regular cs := by
  constructor
  · rintro ⟨s, v, hs, hv, htrue⟩
    have hgives : v.Gives t (t.marginal t' (t.spread t' s)) := fun i hi => by
      rw [TruthTable.marginal_spread h s hi]
      exact hv i hi
    have hrestricts : v.Restricts t t' (v.withStates (t.spread t' s)) (t.spread t' s) :=
      ⟨h, hgives, v.gives_withStates t' _, rfl⟩
    refine ⟨t.spread t' s, v.withStates _, hs.spread h, v.gives_withStates t' _, fun c hc => ?_⟩
    rw [← Constraint.outcome_marginal hrestricts (hcs c hc).1 (hcs c hc).2]
    exact htrue c hc
  · rintro ⟨s', v', hs, hv, htrue⟩
    have hrestricts : (v'.withStates (t.marginal t' s')).Restricts t t' v' s' :=
      ⟨h, v'.gives_withStates t _, hv, rfl⟩
    refine ⟨t.marginal t' s', v'.withStates _, hs.marginal h, v'.gives_withStates t _,
      fun c hc => ?_⟩
    rw [Constraint.outcome_marginal hrestricts (hcs c hc).1 (hcs c hc).2]
    exact htrue c hc

end Credal
