import Credal.Proofs.Translation.Guards

/-!
# The form of translated trees

Translation leaves no probability in a tree and no literal but those that were there and the one.

* `RealExpr.literals`, `isTranslated`, `isSource` and the same for constraints: the literals of a
  tree, and whether it is free of probabilities or of sums of states;
* `Node.isTranslated_iff`, `Node.isSource_iff`, `Node.mem_literals_iff`: the same by the parts of a
  node, and what they are for its guards;
* `Ready`: what a tree needs to have a term;
* `isTranslated_translate`, `literals_translate`: what translation makes of them;
* `ready_enrich`: a translated problem with all its side conditions is ready.
-/

namespace Credal

/-! ## 1. Literals and probabilities of a tree -/

namespace RealExpr

/-- The literals of an expression from left to right. -/
def literals : RealExpr → List Float
  | .literal x => [x]
  | .var _ | .stateSum _ | .probability _ | .given _ _ => []
  | .negative e => e.literals
  | .arith _ a b | .divide a b | .power a b => a.literals ++ b.literals

/-- Whether an expression holds no probability. -/
def isTranslated : RealExpr → Bool
  | .literal _ | .var _ | .stateSum _ => true
  | .probability _ | .given _ _ => false
  | .negative e => e.isTranslated
  | .arith _ a b | .divide a b | .power a b => a.isTranslated && b.isTranslated

/-- Whether an expression holds no sum of states. -/
def isSource : RealExpr → Bool
  | .literal _ | .var _ | .probability _ | .given _ _ => true
  | .stateSum _ => false
  | .negative e => e.isSource
  | .arith _ a b | .divide a b | .power a b => a.isSource && b.isSource

/-- It holds no probability and its literals are finite: all that a term needs. -/
def Ready (e : RealExpr) : Prop := e.isTranslated = true ∧ ∀ x ∈ e.literals, x.isFinite = true

end RealExpr

namespace Constraint

/-- The literals of a constraint from left to right. -/
def literals : Constraint → List Float
  | .compare _ a b => a.literals ++ b.literals
  | .negation c => c.literals
  | .binary _ c d => c.literals ++ d.literals

/-- Whether a constraint holds no probability. -/
def isTranslated : Constraint → Bool
  | .compare _ a b => a.isTranslated && b.isTranslated
  | .negation c => c.isTranslated
  | .binary _ c d => c.isTranslated && d.isTranslated

/-- Whether a constraint holds no sum of states. -/
def isSource : Constraint → Bool
  | .compare _ a b => a.isSource && b.isSource
  | .negation c => c.isSource
  | .binary _ c d => c.isSource && d.isSource

/-- It holds no probability and its literals are finite: all that a term needs. -/
def Ready (c : Constraint) : Prop := c.isTranslated = true ∧ ∀ x ∈ c.literals, x.isFinite = true

end Constraint

namespace Node

/-- Whether a node is a probability, conditional or not. -/
def isProbability : Node → Bool
  | .real (.probability _) | .real (.given _ _) => true
  | _ => false

/-- Whether a node is a sum of states. -/
def isStateSum : Node → Bool
  | .real (.stateSum _) => true
  | _ => false

/-- The literal that a node is. -/
def ownLiterals : Node → List Float
  | .real (.literal x) => [x]
  | _ => []

/-- Whether a node holds no probability. -/
def isTranslated : Node → Bool
  | .constraint c => c.isTranslated
  | .real e => e.isTranslated

/-- Whether a node holds no sum of states. -/
def isSource : Node → Bool
  | .constraint c => c.isSource
  | .real e => e.isSource

/-- The literals of a node from left to right. -/
def literals : Node → List Float
  | .constraint c => c.literals
  | .real e => e.literals

variable {n s : Node}

/-- **A node holds no probability** if none of its parts is one. -/
theorem isTranslated_iff : n.isTranslated = true ↔ n.Everywhere (·.isProbability = false) := by
  refine iff_everywhere (P := fun n => n.isTranslated = true) (fun n => ?_) n
  cases n with
  | real e => cases e <;> simp [isTranslated, RealExpr.isTranslated, isProbability, children]
  | constraint c =>
    cases c <;> simp [isTranslated, Constraint.isTranslated, isProbability, children]

/-- **A node holds no sum of states** if none of its parts is one. -/
theorem isSource_iff : n.isSource = true ↔ n.Everywhere (·.isStateSum = false) := by
  refine iff_everywhere (P := fun n => n.isSource = true) (fun n => ?_) n
  cases n with
  | real e => cases e <;> simp [isSource, RealExpr.isSource, isStateSum, children]
  | constraint c => cases c <;> simp [isSource, Constraint.isSource, isStateSum, children]

theorem mem_ownLiterals_iff (s : Node) (x : Float) :
    x ∈ s.ownLiterals ↔ s = .real (.literal x) := by
  unfold ownLiterals
  split
  · simp only [List.mem_singleton, real.injEq, RealExpr.literal.injEq, eq_comm]
  · rename_i hother
    exact iff_of_false List.not_mem_nil fun h => hother x h

/-- The literals of a node are met in the order of their places. -/
theorem literals_eq_flatMap_places (n : Node) :
    n.literals = n.places.flatMap fun place => place.2.ownLiterals := by
  refine flatMap_places ownLiterals (fun n => ?_) n
  cases n with
  | real e => cases e <;> simp [literals, RealExpr.literals, ownLiterals, children]
  | constraint c => cases c <;> simp [literals, Constraint.literals, ownLiterals, children]

/-- **A literal of a node stands at some place in it.** -/
theorem mem_literals_iff {x : Float} :
    x ∈ n.literals ↔ ∃ p, n.part? p = some (.real (.literal x)) := by
  rw [literals_eq_flatMap_places]
  exact mem_flatMap_places_iff_of_own mem_ownLiterals_iff

/-- The parts of a node without probabilities hold none. -/
theorem isTranslated_of_part {p : List Nat} (h : n.isTranslated = true)
    (hs : n.part? p = some s) : s.isTranslated = true :=
  isTranslated_iff.2 ((isTranslated_iff.1 h).part hs)

theorem literals_subset_of_part {p : List Nat} (hs : n.part? p = some s) :
    s.literals ⊆ n.literals := by
  rw [literals_eq_flatMap_places s, literals_eq_flatMap_places n]
  exact flatMap_places_subset_of_part ownLiterals hs

/-- A guard of a node without probabilities holds none: its denominator is a part of the node. -/
theorem isTranslated_of_mem_guards {g : Constraint} (h : n.isTranslated = true)
    (hg : g ∈ n.guards) : g.isTranslated = true := by
  obtain ⟨p, a, b, hp, -, rfl⟩ := mem_guards_iff.1 hg
  have hb : b.isTranslated = true := isTranslated_of_part h (part?_denominator hp)
  exact Bool.and_eq_true_iff.2 ⟨hb, rfl⟩

/-- The literals of a guard are those of the node, and zero. -/
theorem mem_literals_of_mem_guards {g : Constraint} {x : Float} (hg : g ∈ n.guards)
    (hx : x ∈ g.literals) : x ∈ n.literals ∨ x = 0 := by
  obtain ⟨p, a, b, hp, -, rfl⟩ := mem_guards_iff.1 hg
  rcases List.mem_append.1 hx with hx | hx
  · exact Or.inl (literals_subset_of_part (part?_denominator hp) hx)
  · exact Or.inr (List.mem_singleton.1 hx)

end Node

/-! ## 2. Masses -/

namespace TruthTable

variable (t : TruthTable) (S : Sentence)

/-- A mass is the literal one, or a sum of states of the table. -/
theorem mass_cases : t.mass S = .literal 1 ∨
    t.mass S = .stateSum ((t.dnf S).map fun (i : Nat) => (i : Int)) := by
  unfold mass
  simp only
  by_cases h : (t.dnf S).length = t.stateCount
  · exact Or.inl (if_pos h)
  · exact Or.inr (if_neg h)

theorem isTranslated_mass : (t.mass S).isTranslated = true := by
  rcases t.mass_cases S with h | h <;> rw [h] <;> rfl

theorem guards_mass : (t.mass S).guards = [] := by
  rcases t.mass_cases S with h | h <;> rw [h] <;> rfl

theorem literals_mass {x : Float} (hx : x ∈ (t.mass S).literals) : x = 1 := by
  rcases t.mass_cases S with h | h <;> rw [h] at hx
  · exact List.mem_singleton.1 hx
  · exact nomatch hx

end TruthTable

/-! ## 3. Translation -/

variable (t : TruthTable)

/-- **Translation leaves no probability.** -/
theorem RealExpr.isTranslated_translate (e : RealExpr) : (e.translate t).isTranslated = true := by
  induction e with
  | literal x => rfl
  | var name => rfl
  | stateSum is => rfl
  | probability S => exact t.isTranslated_mass S
  | given S T =>
    exact Bool.and_eq_true_iff.2 ⟨t.isTranslated_mass _, t.isTranslated_mass T⟩
  | negative e ih => exact ih
  | arith op a b iha ihb => exact Bool.and_eq_true_iff.2 ⟨iha, ihb⟩
  | divide a b iha ihb => exact Bool.and_eq_true_iff.2 ⟨iha, ihb⟩
  | power a b iha ihb => exact Bool.and_eq_true_iff.2 ⟨iha, ihb⟩

theorem Constraint.isTranslated_translate (c : Constraint) :
    (c.translate t).isTranslated = true := by
  induction c with
  | compare r a b =>
    exact Bool.and_eq_true_iff.2 ⟨a.isTranslated_translate t, b.isTranslated_translate t⟩
  | negation c ih => exact ih
  | binary k c d ihc ihd => exact Bool.and_eq_true_iff.2 ⟨ihc, ihd⟩

/-- Literals of two parts. -/
theorem mem_append_or_one {xs ys xs' ys' : List Float} {x : Float}
    (hxs : x ∈ xs' → x ∈ xs ∨ x = 1) (hys : x ∈ ys' → x ∈ ys ∨ x = 1) (h : x ∈ xs' ++ ys') :
    x ∈ xs ++ ys ∨ x = 1 := by
  rcases List.mem_append.1 h with h | h
  · exact (hxs h).imp_left (List.mem_append_left _)
  · exact (hys h).imp_left (List.mem_append_right _)

/-- **The literals of a translation** are those of the tree, or the one of a mass. -/
theorem RealExpr.literals_translate {e : RealExpr} {x : Float}
    (hx : x ∈ (e.translate t).literals) : x ∈ e.literals ∨ x = 1 := by
  induction e with
  | literal y => exact Or.inl hx
  | var name => exact nomatch hx
  | stateSum is => exact nomatch hx
  | probability S => exact Or.inr (t.literals_mass S hx)
  | given S T =>
    rcases List.mem_append.1 hx with h | h
    · exact Or.inr (t.literals_mass _ h)
    · exact Or.inr (t.literals_mass T h)
  | negative e ih => exact ih hx
  | arith op a b iha ihb => exact mem_append_or_one iha ihb hx
  | divide a b iha ihb => exact mem_append_or_one iha ihb hx
  | power a b iha ihb => exact mem_append_or_one iha ihb hx

theorem Constraint.literals_translate {c : Constraint} {x : Float}
    (hx : x ∈ (c.translate t).literals) : x ∈ c.literals ∨ x = 1 := by
  induction c with
  | compare r a b =>
    exact mem_append_or_one (RealExpr.literals_translate t) (RealExpr.literals_translate t) hx
  | negation c ih => exact ih hx
  | binary k c d ihc ihd => exact mem_append_or_one ihc ihd hx

theorem Node.literals_translate {n : Node} {x : Float} (hx : x ∈ (n.translate t).literals) :
    x ∈ n.literals ∨ x = 1 := by
  cases n with
  | real e => exact RealExpr.literals_translate t hx
  | constraint c => exact Constraint.literals_translate t hx

theorem isFinite_of_mem_or_one {xs : List Float} (h : ∀ x ∈ xs, x.isFinite = true) {x : Float}
    (hx : x ∈ xs ∨ x = 1) : x.isFinite = true := by
  rcases hx with hx | rfl
  · exact h x hx
  · decide +kernel

theorem TruthTable.ready_mass (S : Sentence) : (t.mass S).Ready :=
  ⟨t.isTranslated_mass S, fun _ hx =>
    isFinite_of_mem_or_one (List.forall_mem_nil _) (Or.inr (t.literals_mass S hx))⟩

/-- **A translation is ready for the solver** if the literals of the tree are finite. -/
theorem RealExpr.ready_translate {e : RealExpr} (h : ∀ x ∈ e.literals, x.isFinite = true) :
    (e.translate t).Ready :=
  ⟨e.isTranslated_translate t, fun _ hx =>
    isFinite_of_mem_or_one h (RealExpr.literals_translate t hx)⟩

theorem Constraint.ready_translate {c : Constraint} (h : ∀ x ∈ c.literals, x.isFinite = true) :
    (c.translate t).Ready :=
  ⟨c.isTranslated_translate t, fun _ hx =>
    isFinite_of_mem_or_one h (Constraint.literals_translate t hx)⟩

/-! ## 4. Side conditions -/

/-- Two sides are ready together. -/
theorem ready_pair {p q : Bool} {xs ys : List Float} :
    (p = true ∧ ∀ x ∈ xs, x.isFinite = true) ∧ (q = true ∧ ∀ x ∈ ys, x.isFinite = true) ↔
      (p && q) = true ∧ ∀ x ∈ xs ++ ys, x.isFinite = true := by
  rw [Bool.and_eq_true_iff, List.forall_mem_append]
  exact and_and_and_comm

theorem RealExpr.ready_literal {x : Float} (h : x.isFinite = true) : (RealExpr.literal x).Ready :=
  ⟨rfl, List.forall_mem_singleton.2 h⟩

theorem RealExpr.ready_stateSum (is : List Int) : (RealExpr.stateSum is).Ready :=
  ⟨rfl, fun _ hx => nomatch hx⟩

theorem Constraint.ready_compare {k : Relation} {a b : RealExpr} (ha : a.Ready) (hb : b.Ready) :
    (Constraint.compare k a b).Ready :=
  ready_pair.1 ⟨ha, hb⟩

/-- The guards of a constraint that is ready are ready. -/
theorem Constraint.ready_guards {c : Constraint} (hc : c.Ready) : ∀ g ∈ c.guards, g.Ready := by
  intro g hg
  refine ⟨Node.isTranslated_of_mem_guards (n := .constraint c) hc.1 hg, fun x hx => ?_⟩
  rcases Node.mem_literals_of_mem_guards (n := .constraint c) hg hx with hx | rfl
  · exact hc.2 x hx
  · decide +kernel

theorem ready_probabilityAxioms (regular : Bool) : ∀ c ∈ probabilityAxioms t regular, c.Ready := by
  have hzero : (RealExpr.literal 0).Ready := RealExpr.ready_literal (by decide +kernel)
  have hone : (RealExpr.literal 1).Ready := RealExpr.ready_literal (by decide +kernel)
  refine List.forall_mem_append.2 ⟨?_, List.forall_mem_singleton.2 ?_⟩
  · intro c hc
    obtain ⟨i, -, rfl⟩ := List.mem_map.1 hc
    exact Constraint.ready_compare (RealExpr.ready_stateSum _) hzero
  · exact Constraint.ready_compare (RealExpr.ready_stateSum _) hone

variable {t} in
/-- What the axioms, the guards of the constraints and the constraints have, all that is handed to
    the solver has. -/
theorem forall_mem_enrich {p : Constraint → Prop} {regular : Bool} {cs : List Constraint}
    (haxioms : ∀ c ∈ probabilityAxioms t regular, p c) (hguards : ∀ c ∈ cs, ∀ g ∈ c.guards, p g)
    (hcs : ∀ c ∈ cs, p c) : ∀ c ∈ enrich t regular cs, p c := by
  refine List.forall_mem_append.2 ⟨List.forall_mem_append.2 ⟨haxioms, fun g hg => ?_⟩, hcs⟩
  rw [divisionGuards, List.flatMap_map] at hg
  obtain ⟨c, hc, hg⟩ := List.mem_flatMap.1 hg
  exact hguards c hc g hg

/-- **All that is handed to the solver is ready** if the constraints are. -/
theorem ready_enrich (regular : Bool) {cs : List Constraint} (hcs : ∀ c ∈ cs, c.Ready) :
    ∀ c ∈ enrich t regular cs, c.Ready :=
  forall_mem_enrich (ready_probabilityAxioms t regular)
    (fun c hc => Constraint.ready_guards (hcs c hc)) hcs

end Credal
