import Credal.Proofs.Evaluation.Rationals
import Credal.Proofs.Translation.Form

/-!
# Plain readings

A translated problem is read as arithmetic in an ordered field. Division is total there: a quotient
by zero has some value, which a solver is free to choose, and so have the powers that the field does
not give a value.

* `Reading`: what literals, states, variables, quotients by zero and powers mean;
* `RealExpr.value`, `Constraint.holdsIn`: the value of an expression, the truth of a constraint, by
  recursion on the tree;
* `Reading.Satisfies`: all constraints of a list are true;
* `Reading.Gives`: the states and variables have rational values, and literals are decimals;
* `satisfies_probabilityAxioms`, `satisfies_ownGuard`: what the side conditions come to.
-/

namespace Credal

open Credal.Number

/-! ## 1. Readings -/

/-- What the parts of a translated problem mean. -/
structure Reading (K : Type*) where
  literal : Float → ℚ
  state : Int → K
  real : String → K
  /-- The quotient of a number by zero. -/
  overZero : K → K
  power : K → K → K

variable {K : Type*} [Field K] [LinearOrder K]

/-- The quotient of two numbers. -/
def Reading.quotient (R : Reading K) (a b : K) : K := if b = 0 then R.overZero a else a / b

/-- The value of an expression. A probability has none of its own and counts as zero. -/
def RealExpr.value (R : Reading K) : RealExpr → K
  | .literal x => R.literal x
  | .var name => R.real name
  | .stateSum is => (is.map R.state).sum
  | .probability _ | .given _ _ => 0
  | .negative e => -e.value R
  | .arith op a b => op.on (a.value R) (b.value R)
  | .divide a b => R.quotient (a.value R) (b.value R)
  | .power a b => R.power (a.value R) (b.value R)

/-- The truth of a constraint. -/
def Constraint.holdsIn (R : Reading K) : Constraint → Bool
  | .compare r a b => r.holdsFor (a.value R) (b.value R)
  | .negation c => !c.holdsIn R
  | .binary k c d => k.holds (c.holdsIn R) (d.holdsIn R)

namespace Reading

variable (R : Reading K)

/-- All constraints of a list are true. -/
def Satisfies (cs : List Constraint) : Prop := ∀ c ∈ cs, c.holdsIn R = true

theorem satisfies_nil : R.Satisfies [] := fun _ hc => nomatch hc

theorem satisfies_append {cs ds : List Constraint} :
    R.Satisfies (cs ++ ds) ↔ R.Satisfies cs ∧ R.Satisfies ds :=
  List.forall_mem_append

theorem satisfies_singleton {c : Constraint} : R.Satisfies [c] ↔ c.holdsIn R = true :=
  List.forall_mem_singleton

/-- A guard list is satisfied if every constraint's own guards are. -/
theorem satisfies_divisionGuards {cs : List Constraint} :
    R.Satisfies (divisionGuards (cs.map .constraint)) ↔ ∀ c ∈ cs, R.Satisfies c.guards := by
  unfold divisionGuards Satisfies
  rw [List.flatMap_map, List.forall_mem_flatMap]
  rfl

theorem satisfies_enrich {t : TruthTable} {regular : Bool} {cs : List Constraint} :
    R.Satisfies (enrich t regular cs) ↔ R.Satisfies (probabilityAxioms t regular) ∧
      (∀ c ∈ cs, R.Satisfies c.guards) ∧ R.Satisfies cs := by
  rw [enrich, satisfies_append, satisfies_append, satisfies_divisionGuards, and_assoc]

/-! ## 2. Rational values -/

/-- The states and variables have the given rational values, a literal is its shortest decimal and
    a power with a natural exponent the product. -/
structure Gives (s : Nat → ℚ) (r : String → ℚ) : Prop where
  literal : ∀ {x q}, Double.shortest? x = some q → R.literal x = q
  state : ∀ i : Int, R.state i = (s i.toNat : K)
  real : ∀ x, R.real x = (r x : K)
  power : ∀ b (n : Nat), R.power b (n : K) = b ^ n

variable {R} {s : Nat → ℚ} {r : String → ℚ}

omit [LinearOrder K] in
theorem Gives.literal_zero (hR : R.Gives s r) : R.literal 0 = 0 :=
  hR.literal (by decide +kernel)

omit [LinearOrder K] in
theorem Gives.literal_one (hR : R.Gives s r) : R.literal 1 = 1 :=
  hR.literal (by decide +kernel)

/-! ## 3. Side conditions -/

/-- The axioms in a reading where the literals of zero and one are those numbers. -/
theorem satisfies_probabilityAxioms_iff (R : Reading K) (h0 : R.literal 0 = 0)
    (h1 : R.literal 1 = 1) (t : TruthTable) (regular : Bool) :
    R.Satisfies (probabilityAxioms t regular) ↔
      (∀ i < t.stateCount, if regular then 0 < R.state i else 0 ≤ R.state i) ∧
      ∑ i ∈ Finset.range t.stateCount, R.state i = 1 := by
  have hzero : (RealExpr.literal 0).value R = 0 := by rw [RealExpr.value, h0, Rat.cast_zero]
  have hone : (RealExpr.literal 1).value R = 1 := by rw [RealExpr.value, h1, Rat.cast_one]
  have hsingle : ∀ i : Nat, (stateVariable i).value R = R.state i := fun i => List.sum_singleton
  have hall : (RealExpr.stateSum (t.states.map fun (i : Nat) => (i : Int))).value R =
      ∑ i ∈ Finset.range t.stateCount, R.state i := by
    rw [RealExpr.value, List.map_map, ← t.sum_states]
    rfl
  rw [probabilityAxioms, satisfies_append, satisfies_singleton]
  refine and_congr ?_ ?_
  · unfold Satisfies
    rw [List.forall_mem_map]
    refine forall_congr' fun i => imp_congr TruthTable.mem_states ?_
    rw [Constraint.holdsIn, hsingle, hzero]
    cases regular with
    | true => exact decide_eq_true_iff
    | false => exact decide_eq_true_iff
  · rw [Constraint.holdsIn, hall, hone]
    exact decide_eq_true_iff

theorem Gives.guard_holdsIn (hR : R.Gives s r) (e : RealExpr) :
    e.guard.holdsIn R = true ↔ e.value R ≠ 0 := by
  have hzero : (RealExpr.literal 0).value R = 0 := by
    rw [RealExpr.value, hR.literal_zero, Rat.cast_zero]
  rw [RealExpr.guard, Constraint.holdsIn, Constraint.holdsIn, hzero, Bool.not_eq_true']
  exact decide_eq_false_iff_not

variable [IsStrictOrderedRing K]

theorem Gives.value_stateSum (hR : R.Gives s r) (is : List Int) :
    (RealExpr.stateSum is).value R = ((is.map fun i => s i.toNat).sum : ℚ) := by
  rw [RealExpr.value]
  induction is with
  | nil => exact Rat.cast_zero.symm
  | cons i is ih => rw [List.map_cons, List.sum_cons, List.map_cons, List.sum_cons, ih, hR.state,
      Rat.cast_add]

/-- **The axioms say that the values of the states are a distribution.** -/
theorem Gives.satisfies_probabilityAxioms (hR : R.Gives s r) (t : TruthTable) (regular : Bool) :
    R.Satisfies (probabilityAxioms t regular) ↔
      (∀ i < t.stateCount, if regular then 0 < s i else 0 ≤ s i) ∧
      ∑ i ∈ Finset.range t.stateCount, s i = 1 := by
  have hstate : ∀ i : Nat, R.state i = (s i : K) := fun i => hR.state i
  rw [R.satisfies_probabilityAxioms_iff hR.literal_zero hR.literal_one]
  simp only [hstate]
  refine and_congr (forall₂_congr fun i _ => ?_) ?_
  · cases regular with
    | true => exact Rat.cast_pos
    | false => exact Rat.cast_nonneg
  · rw [← Rat.cast_sum, ← Rat.cast_one]
    exact Rat.cast_inj

/-- **The guard of a denominator says that it is not zero**, also where it is left out. -/
theorem Gives.satisfies_ownGuard (hR : R.Gives s r) {e : RealExpr}
    (he : ∀ x ∈ e.literals, x.isFinite = true) :
    R.Satisfies (if e.needsGuard then [e.guard] else []) ↔ e.value R ≠ 0 := by
  by_cases hg : e.needsGuard = true
  · rw [if_pos hg, satisfies_singleton, hR.guard_holdsIn]
  · rw [if_neg hg]
    refine iff_of_true R.satisfies_nil ?_
    cases e with
    | literal x =>
      obtain ⟨q, hq⟩ := Option.isSome_iff_exists.1
        ((Double.isSome_shortest?_iff x).2 (he x (List.mem_singleton_self x)))
      rw [RealExpr.value, hR.literal hq, Rat.cast_ne_zero]
      exact fun h0 => hg ((Double.shortest?_eq_zero_iff hq).1 h0)
    | _ => exact absurd rfl hg

end Reading

end Credal
