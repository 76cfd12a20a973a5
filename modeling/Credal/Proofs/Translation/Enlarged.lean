import Credal.Proofs.Evaluation.Enlarged
import Credal.Proofs.Smt.Meaning

/-!
# Translated problems over a larger table

What a solver is asked about a problem is true over a table in a reading exactly if it is true over
every larger table in the readings whose states have it as their marginal: the translations of the
problem have the same values, and the same divisions of them are guarded. So a solver decides the
same of both.

* `Reading.Restricts`: two readings, one with the marginal of the other;
* `RealExpr.SameIn`, `RealExpr.sameIn_translate`: expressions of the same value whose guards are
  true together, by induction on the tree;
* `Reading.Restricts.satisfies_enrich_iff`: all that is asked;
* `SolvableOver`, `solvableOver_iff`: problems;
* `enlarged_table_agrees`: evaluations and problems together.
-/

namespace Credal

open Credal.Number

variable {t t' : TruthTable} {S : Sentence} {K : Type*} [Field K] [LinearOrder K]

/-! ## 1. Readings -/

/-- The states of one reading have the marginal of the states of another; all else is the same. -/
structure Reading.Restricts (t t' : TruthTable) (R R' : Reading K) : Prop where
  letters : t.letters ⊆ t'.letters
  marginal : ∀ i < t.stateCount, R.state i = t.marginal t' (fun j => R'.state j) i
  literal : R.literal = R'.literal
  real : R.real = R'.real
  overZero : R.overZero = R'.overZero
  power : R.power = R'.power

namespace Reading.Restricts

variable {R R' : Reading K}

theorem quotient (hR : Restricts t t' R R') : R.quotient = R'.quotient := by
  funext a b
  rw [Reading.quotient, Reading.quotient, hR.overZero]

omit [LinearOrder K] in
/-- Listed states add up to the mass of their region. -/
theorem sum_state_dnf (R : Reading K) (t : TruthTable) (S : Sentence) :
    (((t.dnf S).map fun (i : Nat) => (i : Int)).map R.state).sum = ∑ i ∈ t.region S, R.state i := by
  rw [List.map_map, ← t.sum_dnf]
  rfl

end Reading.Restricts

/-! ## 2. Expressions -/

/-- Two expressions have the same value in two readings, and their guards are true together. -/
structure RealExpr.SameIn (R R' : Reading K) (a b : RealExpr) : Prop where
  value : a.value R = b.value R'
  needsGuard : a.needsGuard = b.needsGuard
  guards : R.Satisfies a.guards ↔ R'.Satisfies b.guards

variable {R R' : Reading K}

/-- The mass of a sentence is the same in both readings. -/
theorem TruthTable.sameIn_mass (hR : Reading.Restricts t t' R R') (hS : S.letters ⊆ t.letters) :
    RealExpr.SameIn R R' (t.mass S) (t'.mass S) := by
  have hguards : R.Satisfies (t.mass S).guards ↔ R'.Satisfies (t'.mass S).guards := by
    rw [t.guards_mass, t'.guards_mass]
    exact iff_of_true R.satisfies_nil R'.satisfies_nil
  by_cases h : (t.dnf S).length = t.stateCount
  · have hmass : t.mass S = .literal 1 := if_pos h
    have hmass' : t'.mass S = .literal 1 := if_pos ((length_dnf_marginal_iff hR.letters hS).1 h)
    refine ⟨?_, ?_, hguards⟩
    · rw [hmass, hmass', RealExpr.value, RealExpr.value, hR.literal]
    · rw [hmass, hmass']
  · have hmass : t.mass S = .stateSum _ := if_neg h
    have hmass' : t'.mass S = .stateSum _ := if_neg (mt (length_dnf_marginal_iff hR.letters hS).2 h)
    refine ⟨?_, ?_, hguards⟩
    · rw [hmass, hmass', RealExpr.value, RealExpr.value, Reading.Restricts.sum_state_dnf,
        Reading.Restricts.sum_state_dnf, ← sum_marginal t' _ hS]
      exact Finset.sum_congr rfl fun i hi => hR.marginal i (mem_region.1 hi).1
    · rw [hmass, hmass']
      rfl

namespace RealExpr.SameIn

variable {a b a' b' : RealExpr}

/-- The guard of a denominator is true in both readings or in neither. -/
theorem ownGuard (hR : Reading.Restricts t t' R R') (h : SameIn R R' b b') :
    R.Satisfies (if b.needsGuard then [b.guard] else []) ↔
      R'.Satisfies (if b'.needsGuard then [b'.guard] else []) := by
  rw [← h.needsGuard]
  split
  · have hguard : b.guard.holdsIn R = b'.guard.holdsIn R' := by
      simp only [guard, Constraint.holdsIn, RealExpr.value, h.value, hR.literal]
    rw [R.satisfies_singleton, R'.satisfies_singleton, hguard]
  · exact iff_of_true R.satisfies_nil R'.satisfies_nil

/-- The guards of two parts. -/
theorem guards_append (ha : SameIn R R' a a') (hb : SameIn R R' b b') :
    R.Satisfies (a.guards ++ b.guards) ↔ R'.Satisfies (a'.guards ++ b'.guards) := by
  rw [R.satisfies_append, R'.satisfies_append]
  exact and_congr ha.guards hb.guards

theorem divide (hR : Reading.Restricts t t' R R') (ha : SameIn R R' a a') (hb : SameIn R R' b b') :
    SameIn R R' (.divide a b) (.divide a' b') where
  value := by rw [RealExpr.value, RealExpr.value, ha.value, hb.value, hR.quotient]
  needsGuard := rfl
  guards := by
    rw [RealExpr.guards, RealExpr.guards, List.append_assoc, List.append_assoc, R.satisfies_append,
      R'.satisfies_append]
    exact and_congr (hb.ownGuard hR) (ha.guards_append hb)

end RealExpr.SameIn

/-- **The translations of an expression have the same value**, and the same divisions of them are
    guarded. -/
theorem RealExpr.sameIn_translate (hR : Reading.Restricts t t' R R') {e : RealExpr}
    (he : e.isSource = true) (hl : e.letters ⊆ t.letters) :
    SameIn R R' (e.translate t) (e.translate t') := by
  induction e with
  | literal x =>
    exact ⟨congrArg (fun f : Float → ℚ => (f x : K)) hR.literal, rfl,
      iff_of_true R.satisfies_nil R'.satisfies_nil⟩
  | var name =>
    exact ⟨congrFun hR.real name, rfl, iff_of_true R.satisfies_nil R'.satisfies_nil⟩
  | stateSum is => exact nomatch he
  | probability S => exact TruthTable.sameIn_mass hR hl
  | given S T =>
    have hT : T.letters ⊆ t.letters := (List.append_subset.1 hl).2
    have hboth : (Sentence.binary .conjunction S T).letters ⊆ t.letters := hl
    exact (TruthTable.sameIn_mass hR hboth).divide hR (TruthTable.sameIn_mass hR hT)
  | negative e ih =>
    have h := ih he hl
    exact ⟨congrArg Neg.neg h.value, rfl, h.guards⟩
  | arith op a b iha ihb =>
    obtain ⟨ha, hb⟩ := Bool.and_eq_true_iff.1 he
    obtain ⟨hla, hlb⟩ := List.append_subset.1 hl
    have hsa := iha ha hla
    have hsb := ihb hb hlb
    exact ⟨congrArg₂ op.on hsa.value hsb.value, rfl, hsa.guards_append hsb⟩
  | divide a b iha ihb =>
    obtain ⟨ha, hb⟩ := Bool.and_eq_true_iff.1 he
    obtain ⟨hla, hlb⟩ := List.append_subset.1 hl
    exact (iha ha hla).divide hR (ihb hb hlb)
  | power a b iha ihb =>
    obtain ⟨ha, hb⟩ := Bool.and_eq_true_iff.1 he
    obtain ⟨hla, hlb⟩ := List.append_subset.1 hl
    have hsa := iha ha hla
    have hsb := ihb hb hlb
    refine ⟨?_, rfl, hsa.guards_append hsb⟩
    rw [translate, translate, value, value, hsa.value, hsb.value, hR.power]

/-- **The translations of a constraint have the same truth value**, and their guards are true
    together. -/
theorem Constraint.sameIn_translate (hR : Reading.Restricts t t' R R') {c : Constraint}
    (hc : c.isSource = true) (hl : c.letters ⊆ t.letters) :
    (c.translate t).holdsIn R = (c.translate t').holdsIn R' ∧
      (R.Satisfies (c.translate t).guards ↔ R'.Satisfies (c.translate t').guards) := by
  induction c with
  | compare r a b =>
    obtain ⟨ha, hb⟩ := Bool.and_eq_true_iff.1 hc
    obtain ⟨hla, hlb⟩ := List.append_subset.1 hl
    have hsa := RealExpr.sameIn_translate hR ha hla
    have hsb := RealExpr.sameIn_translate hR hb hlb
    exact ⟨congrArg₂ r.holdsFor hsa.value hsb.value, hsa.guards_append hsb⟩
  | negation c ih =>
    obtain ⟨hholds, hguards⟩ := ih hc hl
    exact ⟨congrArg (!·) hholds, hguards⟩
  | binary k c d ihc ihd =>
    obtain ⟨hc, hd⟩ := Bool.and_eq_true_iff.1 hc
    obtain ⟨hlc, hld⟩ := List.append_subset.1 hl
    obtain ⟨hholds, hguards⟩ := ihc hc hlc
    obtain ⟨hholds', hguards'⟩ := ihd hd hld
    refine ⟨congrArg₂ k.holds hholds hholds', ?_⟩
    show R.Satisfies (_ ++ _) ↔ R'.Satisfies (_ ++ _)
    rw [R.satisfies_append, R'.satisfies_append]
    exact and_congr hguards hguards'

/-! ## 3. Problems -/

/-- **All that is asked about a problem**, where its axioms are true in both readings or in
    neither. -/
theorem Reading.Restricts.satisfies_enrich_iff (hR : Reading.Restricts t t' R R') {regular : Bool}
    (haxioms : R.Satisfies (probabilityAxioms t regular) ↔
      R'.Satisfies (probabilityAxioms t' regular)) {cs : List Constraint}
    (hcs : ∀ c ∈ cs, c.isSource = true ∧ c.letters ⊆ t.letters) :
    R.Satisfies (enrich t regular (cs.map (·.translate t))) ↔
      R'.Satisfies (enrich t' regular (cs.map (·.translate t'))) := by
  rw [R.satisfies_enrich, R'.satisfies_enrich]
  refine and_congr haxioms (and_congr ?_ ?_)
  · rw [List.forall_mem_map, List.forall_mem_map]
    exact forall₂_congr fun c hc => (Constraint.sameIn_translate hR (hcs c hc).1 (hcs c hc).2).2
  · show (∀ d ∈ cs.map (·.translate t), _) ↔ ∀ d ∈ cs.map (·.translate t'), _
    rw [List.forall_mem_map, List.forall_mem_map]
    refine forall₂_congr fun c hc => ?_
    rw [(Constraint.sameIn_translate hR (hcs c hc).1 (hcs c hc).2).1]

variable [IsStrictOrderedRing K]

theorem literalValue_zero : literalValue 0 = 0 := by decide +kernel

theorem literalValue_one : literalValue 1 = 1 := by decide +kernel

omit [IsStrictOrderedRing K] in
theorem satisfies_probabilityAxioms_ofValues (s : Int → K) (r : String → K) (overZero : K → K)
    (power : K → K → K) (t : TruthTable) (regular : Bool) :
    (Reading.ofValues s r overZero power).Satisfies (probabilityAxioms t regular) ↔
      t.IsDistribution regular fun i => s i := by
  have h0 : (Reading.ofValues s r overZero power).literal 0 = 0 := by
    simp only [Reading.ofValues, literalValue_zero]
  have h1 : (Reading.ofValues s r overZero power).literal 1 = 1 := by
    simp only [Reading.ofValues, literalValue_one]
  exact Reading.satisfies_probabilityAxioms_iff _ h0 h1 t regular

/-- Some values of the states and variables make all that is asked about a problem true, quotients
    by zero and powers having the given meaning. -/
def SolvableOver (t : TruthTable) (regular : Bool) (cs : List Constraint) (overZero : K → K)
    (power : K → K → K) : Prop :=
  ∃ (s : Int → K) (r : String → K), (Reading.ofValues s r overZero power).Satisfies
    (enrich t regular (cs.map (·.translate t)))

/-- **A solver decides the same of a problem over both tables.** -/
theorem solvableOver_iff (h : t.letters ⊆ t'.letters) (regular : Bool) {cs : List Constraint}
    (hcs : ∀ c ∈ cs, c.isSource = true ∧ c.letters ⊆ t.letters) (overZero : K → K)
    (power : K → K → K) :
    SolvableOver t regular cs overZero power ↔ SolvableOver t' regular cs overZero power := by
  constructor
  · rintro ⟨s, r, hs⟩
    have hdist : t.IsDistribution regular fun i => s i :=
      (satisfies_probabilityAxioms_ofValues s r overZero power t regular).1
        ((Reading.satisfies_enrich _).1 hs).1
    let s' : Int → K := fun j => t.spread t' (fun i => s i) j.toNat
    have hR : Reading.Restricts t t' (.ofValues s r overZero power)
        (.ofValues s' r overZero power) :=
      ⟨h, fun i hi => (TruthTable.marginal_spread h (fun i => s i) hi).symm, rfl, rfl, rfl, rfl⟩
    have haxioms := (satisfies_probabilityAxioms_ofValues s' r overZero power t' regular).2
      (hdist.spread h)
    exact ⟨s', r, (hR.satisfies_enrich_iff
      (iff_of_true ((Reading.satisfies_enrich _).1 hs).1 haxioms) hcs).1 hs⟩
  · rintro ⟨s', r, hs⟩
    have hdist : t'.IsDistribution regular fun j => s' j :=
      (satisfies_probabilityAxioms_ofValues s' r overZero power t' regular).1
        ((Reading.satisfies_enrich _).1 hs).1
    let s : Int → K := fun i => t.marginal t' (fun j => s' j) i.toNat
    have hR : Reading.Restricts t t' (.ofValues s r overZero power)
        (.ofValues s' r overZero power) :=
      ⟨h, fun _ _ => rfl, rfl, rfl, rfl, rfl⟩
    have haxioms := (satisfies_probabilityAxioms_ofValues s r overZero power t regular).2
      (hdist.marginal h)
    exact ⟨s, r, (hR.satisfies_enrich_iff
      (iff_of_true haxioms ((Reading.satisfies_enrich _).1 hs).1) hcs).2 hs⟩

/-- **A larger table changes nothing.** Trees over the letters of a table have the same outcomes
    over a larger one, in whatever order it lists its letters, where the states of the smaller table
    have the marginal values. The marginal of a distribution is one, every distribution is such a
    marginal, and a problem is satisfiable over both tables or over none: by the evaluation of its
    constraints, and as it is asked of a solver. -/
theorem enlarged_table_agrees (sys : AlgebraSystem) (h : t.letters ⊆ t'.letters) :
    (∀ (s' : Nat → ℚ) (v v' : Assignment Exact), v.Gives t (t.marginal t' s') → v'.Gives t' s' →
      v.real = v'.real →
      (∀ e : RealExpr, e.isSource = true → e.letters ⊆ t.letters →
        e.outcome (.exact sys) t v = e.outcome (.exact sys) t' v') ∧
      ∀ c : Constraint, c.isSource = true → c.letters ⊆ t.letters →
        c.outcome (.exact sys) t v = c.outcome (.exact sys) t' v') ∧
    (∀ s' : Nat → ℚ,
      ((∀ j < t'.stateCount, 0 ≤ s' j) → ∀ i < t.stateCount, 0 ≤ t.marginal t' s' i) ∧
      ((∀ j < t'.stateCount, 0 < s' j) → ∀ i < t.stateCount, 0 < t.marginal t' s' i) ∧
      ∑ i ∈ Finset.range t.stateCount, t.marginal t' s' i =
        ∑ j ∈ Finset.range t'.stateCount, s' j) ∧
    (∀ s : Nat → ℚ, ∃ s' : Nat → ℚ, (∀ i < t.stateCount, t.marginal t' s' i = s i) ∧
      ((∀ i < t.stateCount, 0 ≤ s i) → ∀ j < t'.stateCount, 0 ≤ s' j) ∧
      ((∀ i < t.stateCount, 0 < s i) → ∀ j < t'.stateCount, 0 < s' j) ∧
      ∑ j ∈ Finset.range t'.stateCount, s' j = ∑ i ∈ Finset.range t.stateCount, s i) ∧
    ∀ (regular : Bool) (cs : List Constraint),
      (∀ c ∈ cs, c.isSource = true ∧ c.letters ⊆ t.letters) →
      (SatisfiableOver sys t regular cs ↔ SatisfiableOver sys t' regular cs) ∧
      ∀ (overZero : ℝ → ℝ) (power : ℝ → ℝ → ℝ),
        SolvableOver t regular cs overZero power ↔ SolvableOver t' regular cs overZero power := by
  refine ⟨fun s' v v' hv hv' hreal => ?_, fun s' => ?_, fun s => ?_, fun regular cs hcs => ?_⟩
  · have hrestricts : v.Restricts t t' v' s' := ⟨h, hv, hv', hreal⟩
    exact ⟨fun e => RealExpr.outcome_marginal hrestricts,
      fun c => Constraint.outcome_marginal hrestricts⟩
  · exact ⟨fun hs i _ => TruthTable.marginal_nonneg hs i,
      fun hs i _ => TruthTable.marginal_pos h hs i, TruthTable.sum_range_marginal t t' s'⟩
  · exact ⟨t.spread t' s, fun i => TruthTable.marginal_spread h s,
      fun hs j _ => TruthTable.spread_nonneg hs j, fun hs j => TruthTable.spread_pos hs,
      TruthTable.sum_range_spread h s⟩
  · exact ⟨satisfiableOver_iff h regular hcs, solvableOver_iff h regular hcs⟩

/-- A second letter stands before the first. The four states give the first letter two fifths, as
    the two states without the second letter do, and a probability under a false condition has no
    value over either table; positive values over the small table give some over the large one. -/
theorem enlarged_table_agrees_of_two_letters :
    let t : TruthTable := ⟨[⟨"P", 0⟩], List.nodup_singleton _⟩
    let t' : TruthTable := ⟨[⟨"Q", 0⟩, ⟨"P", 0⟩], by decide⟩
    let s' : Nat → ℚ := fun j => (j + 1) / 10
    let c : Constraint := .compare .equal (.probability (.letter ⟨"P", 0⟩)) (.literal 0.4)
    let e : RealExpr := .given (.letter ⟨"P", 0⟩) (.value false)
    let v := Assignment.ofRats (t.marginal t' s') fun _ => 0
    t.letters ⊆ t'.letters ∧ c.outcome (.exact .enclosing) t v = .ok (.ok true) ∧
      e.outcome (.exact .enclosing) t v = .ok (.error .divisionByZero) ∧
      SatisfiableOver .enclosing t' true [c] := by
  intro t t' s' c e v
  have h : t.letters ⊆ t'.letters := by decide
  obtain ⟨houtcomes, -, -, hproblems⟩ := enlarged_table_agrees .enclosing h
  obtain ⟨hreal, hconstraint⟩ := houtcomes s' v (.ofRats s' fun _ => 0)
    (Assignment.gives_ofRats _ _ _) (Assignment.gives_ofRats _ _ _) rfl
  have hcs : ∀ d ∈ [c], d.isSource = true ∧ d.letters ⊆ t.letters :=
    List.forall_mem_singleton.2 ⟨rfl, by decide⟩
  refine ⟨h, ?_, ?_, (hproblems true [c] hcs).1.1 ?_⟩
  · rw [hconstraint c rfl (by decide)]
    decide +kernel
  · rw [hreal e rfl (by decide)]
    decide +kernel
  · refine ⟨fun i => if i = 0 then 2 / 5 else 3 / 5, .ofRats _ fun _ => 0, ⟨?_, ?_⟩,
      Assignment.gives_ofRats _ _ _, List.forall_mem_singleton.2 ?_⟩
    · intro i _
      show (0 : ℚ) < if i = 0 then 2 / 5 else 3 / 5
      split <;> norm_num
    · decide +kernel
    · decide +kernel

end Credal
