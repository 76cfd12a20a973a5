import Credal.Proofs.Number.Integral
import Credal.Proofs.Smt.Meaning
import Credal.Proofs.Translation.Faithful

/-!
# The two readings of a literal

The solver is given the exact value of an integral literal and the shortest decimal of another one;
exact evaluation takes every literal for its shortest decimal. The two agree below `2 ^ 54 + 8`, and
from there on an integral literal may be read as another number, though never far away. So a model
of the terms is a model in exact arithmetic if all literals agree.

* `ReadAlike`, `readAlike_iff`: literals that are read alike;
* `literalValue_near`: how far the readings of a literal are apart;
* `RealExpr.value_congr`, `Constraint.holdsIn_congr`: readings that differ in other literals only;
* `literals_are_read_alike`: the terms of literals, and models where all literals agree.
-/

namespace Credal

open Credal.Number

/-! ## 1. Literals -/

/-- What exact arithmetic takes a literal for. -/
def decimalValue (x : Float) : ℚ := (Double.shortest? x).getD 0

/-- The solver reads a literal as exact arithmetic does. -/
def ReadAlike (x : Float) : Prop := literalValue x = decimalValue x

theorem literalValue_of_integer? {x : Float} {i : Int} (h : Double.integer? x = some i) :
    literalValue x = i := by
  rw [literalValue, h]

/-- A literal that is no integer is its shortest decimal on both sides. -/
theorem readAlike_of_integer?_eq_none {x : Float} (h : Double.integer? x = none) : ReadAlike x := by
  rw [ReadAlike, literalValue, h, decimalValue]

theorem exists_decimalValue {x : Float} (h : x.isFinite = true) :
    Double.shortest? x = some (decimalValue x) := by
  obtain ⟨q, hq⟩ := Option.isSome_iff_exists.1 ((Double.isSome_shortest?_iff x).2 h)
  rw [decimalValue, hq, Option.getD_some]

/-- A literal is read alike if it is no integer, or its own shortest decimal. -/
theorem readAlike_iff {x : Float} (hfinite : x.isFinite = true) :
    ReadAlike x ↔ ∀ n : Int, Double.integer? x = some n → Double.shortest? x = some (n : ℚ) := by
  have hshortest := exists_decimalValue hfinite
  constructor
  · intro h n hi
    rw [hshortest, ← h, literalValue_of_integer? hi]
  · intro h
    cases hi : Double.integer? x with
    | none => exact readAlike_of_integer?_eq_none hi
    | some n =>
      have hsame := Option.some.inj (hshortest.symm.trans (h n hi))
      rw [ReadAlike, literalValue_of_integer? hi, hsame]

/-- **The two readings of a literal** are close, and the same below `2 ^ 54 + 8`. -/
theorem literalValue_near {x : Float} (hfinite : x.isFinite = true) (hx : ¬ x < 0) :
    |literalValue x - decimalValue x| ≤ literalValue x / 2 ^ 53 ∧
      (literalValue x < 2 ^ 54 + 8 → ReadAlike x) := by
  have hshortest := exists_decimalValue hfinite
  cases hi : Double.integer? x with
  | none =>
    have hagrees := readAlike_of_integer?_eq_none hi
    have hnonneg := Double.shortest?_nonneg hshortest hx
    rw [hagrees, sub_self, abs_zero]
    exact ⟨by positivity, fun _ => hagrees⟩
  | some i =>
    obtain ⟨n, rfl⟩ := Int.eq_ofNat_of_zero_le (Double.integer?_nonneg hi hx)
    obtain ⟨q, hq, hnear, hsame⟩ := Double.exists_shortest?_near hi hx
    obtain rfl := Option.some.inj (hshortest.symm.trans hq)
    have hvalue : literalValue x = n := literalValue_of_integer? hi
    rw [ReadAlike, hvalue]
    exact ⟨hnear, fun hlt => (hsame (by exact_mod_cast hlt)).symm⟩

theorem readAlike_zero : ReadAlike 0 := by
  show literalValue 0 = decimalValue 0
  decide +kernel

theorem readAlike_one : ReadAlike 1 := by
  show literalValue 1 = decimalValue 1
  decide +kernel

/-! ## 2. Readings that differ in literals -/

section

variable {K : Type*} [Field K] [LinearOrder K] {R : Reading K} {f : Float → ℚ}

/-- The value of an expression depends on its own literals only. -/
theorem RealExpr.value_congr {e : RealExpr} (h : ∀ x ∈ e.literals, R.literal x = f x) :
    e.value R = e.value { R with literal := f } := by
  induction e with
  | literal x => exact congrArg _ (h x (List.mem_singleton_self x))
  | var name => rfl
  | stateSum is => rfl
  | probability S => rfl
  | given S T => rfl
  | negative e ih => exact congrArg _ (ih h)
  | arith op a b iha ihb =>
    obtain ⟨ha, hb⟩ := List.forall_mem_append.1 h
    rw [value, value, iha ha, ihb hb]
  | divide a b iha ihb =>
    obtain ⟨ha, hb⟩ := List.forall_mem_append.1 h
    rw [value, value, iha ha, ihb hb]
    rfl
  | power a b iha ihb =>
    obtain ⟨ha, hb⟩ := List.forall_mem_append.1 h
    rw [value, value, iha ha, ihb hb]

/-- So does the truth of a constraint. -/
theorem Constraint.holdsIn_congr {c : Constraint} (h : ∀ x ∈ c.literals, R.literal x = f x) :
    c.holdsIn R = c.holdsIn { R with literal := f } := by
  induction c with
  | compare r a b =>
    obtain ⟨ha, hb⟩ := List.forall_mem_append.1 h
    rw [holdsIn, holdsIn, RealExpr.value_congr ha, RealExpr.value_congr hb]
  | negation c ih => rw [holdsIn, holdsIn, ih h]
  | binary k c d ihc ihd =>
    obtain ⟨hc, hd⟩ := List.forall_mem_append.1 h
    rw [holdsIn, holdsIn, ihc hc, ihd hd]

end

/-! ## 3. Models -/

variable {t : TruthTable} {c : Constraint}

theorem readAlike_of_mem_translate (hc : ∀ x ∈ c.literals, ReadAlike x) :
    ∀ x ∈ (c.translate t).literals, ReadAlike x := by
  intro x hx
  rcases Constraint.literals_translate t hx with hx | rfl
  · exact hc x hx
  · exact readAlike_one

/-- The real numbers at rational values, with the literals that the solver is given. -/
noncomputable def Reading.ofTerms (s : Nat → ℚ) (r : String → ℚ) (overZero : ℝ → ℝ) : Reading ℝ :=
  .ofValues (fun i => (s i.toNat : ℝ)) (fun x => (r x : ℝ)) overZero fun b e => b ^ e

/-- A constraint whose literals agree is true in exact arithmetic exactly if its translation and the
    guards of it are true for the solver. -/
theorem Constraint.outcome_eq_true_iff_ofTerms {sys : AlgebraSystem} {s : Nat → ℚ}
    {r : String → ℚ} {v : Assignment Exact} (hv : v.Gives t s)
    (hr : ∀ x ∈ c.reals, v.real x = some (.number (.ofRat (r x))))
    (hplain : c.PlainOver t) (hc : ∀ x ∈ c.literals, ReadAlike x) (overZero : ℝ → ℝ) :
    c.outcome (.exact sys) t v = .ok (.ok true) ↔
      (Reading.ofTerms s r overZero).Satisfies (c.translate t).guards ∧
        (c.translate t).holdsIn (.ofTerms s r overZero) = true := by
  have hliterals := readAlike_of_mem_translate (t := t) hc
  have hguards : ∀ g ∈ (c.translate t).guards, ∀ x ∈ g.literals, ReadAlike x := by
    intro g hg x hx
    rcases Node.mem_literals_of_mem_guards (n := .constraint (c.translate t)) hg hx with hx | rfl
    · exact hliterals x hx
    · exact readAlike_zero
  have hsame : ∀ d : Constraint, (∀ x ∈ d.literals, ReadAlike x) →
      d.holdsIn (.ofTerms s r overZero) = d.holdsIn (.ofRats s r overZero) :=
    fun d hd => Constraint.holdsIn_congr hd
  have hsatisfies : (Reading.ofTerms s r overZero).Satisfies (c.translate t).guards ↔
      (Reading.ofRats s r overZero).Satisfies (c.translate t).guards := by
    refine forall₂_congr fun g hg => ?_
    rw [hsame g (hguards g hg)]
  rw [Constraint.outcome_eq_true_iff (Reading.gives_ofRats s r overZero) hv hr hplain, hsatisfies,
    hsame _ hliterals]

/-- **The solver and exact arithmetic read a literal alike** exactly if it is no integer or an
    integer that is its own shortest decimal, so always below `2 ^ 54 + 8`; above that they read
    close numbers. A constraint whose literals they read alike is evaluated to true in exact
    arithmetic, at rational values, exactly if its terms, those of the guards included, are true at
    these values. -/
theorem literals_are_read_alike (sys : AlgebraSystem) (x : Float) (t : TruthTable)
    (c : Constraint) :
    (x.isFinite = true → ¬ x < 0 →
      (∃ term, literalTerm x = .ok term ∧
        ∀ I : Symbols ℝ, term.meaning I = some (.number (literalValue x : ℝ))) ∧
      Exact.ofDouble x = .ofRat (decimalValue x) ∧
      (literalValue x = decimalValue x ↔
        ∀ n : Int, Double.integer? x = some n → Double.shortest? x = some (n : ℚ)) ∧
      (literalValue x < 2 ^ 54 + 8 → literalValue x = decimalValue x) ∧
      |literalValue x - decimalValue x| ≤ literalValue x / 2 ^ 53) ∧
    (c.PlainOver t → (∀ x ∈ c.literals, literalValue x = decimalValue x) →
      ∀ (s : Nat → ℚ) (r : String → ℚ) (v : Assignment Exact), v.Gives t s →
        (∀ x ∈ c.reals, v.real x = some (.number (.ofRat (r x)))) → ∀ overZero : ℝ → ℝ,
          (c.outcome (.exact sys) t v = .ok (.ok true) ↔
            (∀ g ∈ (c.translate t).guards, g.holdsIn (.ofTerms s r overZero) = true) ∧
              (c.translate t).holdsIn (.ofTerms s r overZero) = true)) := by
  refine ⟨fun hfinite hx => ?_, fun hplain hc s r v hv hr overZero => ?_⟩
  · obtain ⟨term, hterm⟩ := exists_literalTerm_iff.2 hfinite
    obtain ⟨hnear, hsame⟩ := literalValue_near hfinite hx
    refine ⟨⟨term, hterm, fun I => ?_⟩, Exact.ofDouble_eq (exists_decimalValue hfinite),
      readAlike_iff hfinite, hsame, hnear⟩
    have hI : I.Reads ⟨literalValue, fun i => I.constant (RealExpr.stateName i),
        fun _ => 0, I.overZero, I.power⟩ := ⟨fun _ => rfl, fun _ => rfl, rfl, rfl⟩
    exact hI.meaning_literalTerm hterm hx
  · exact Constraint.outcome_eq_true_iff_ofTerms hv hr hplain hc overZero

/-- The first integral double that is read as two numbers. -/
theorem literal_read_as_two_numbers :
    let x : Float := 18014398509481992
    x.isFinite = true ∧ ¬ x < 0 ∧ literalTerm x = .ok (.atom "18014398509481992") ∧
      Exact.ofDouble x = .ofRat 18014398509481990 := by
  intro x
  refine ⟨by decide +kernel, by decide +kernel, ?_, ?_⟩
  · have hinteger : Double.integer? x = some 18014398509481992 := by decide +kernel
    have htext : intText 18014398509481992 = "18014398509481992" := by decide +kernel
    rw [literalTerm, hinteger, ← htext]
  · exact Exact.ofDouble_eq (by decide +kernel)

/-- A half is read alike, and so a sentence with this probability has it for the solver too. -/
theorem literals_are_read_alike_of_half :
    let t : TruthTable := ⟨[⟨"P", 0⟩], List.nodup_singleton _⟩
    let c : Constraint := .compare .equal (.probability (.letter ⟨"P", 0⟩)) (.literal 0.5)
    (∀ x ∈ c.literals, literalValue x = decimalValue x) ∧
      (c.translate t).holdsIn (.ofTerms (fun _ => 1 / 2) (fun _ => 0) fun _ => 0) = true := by
  intro t c
  have hagrees : ∀ x ∈ c.literals, literalValue x = decimalValue x := by decide +kernel
  have hplain : c.PlainOver t :=
    ⟨fun _ hl => hl, (by decide +kernel : (0.5 : Float).isFinite = true)⟩
  have htrue : c.outcome (.exact .enclosing) t (.ofRats (fun _ => 1 / 2) fun _ => 0) =
      .ok (.ok true) := by decide +kernel
  exact ⟨hagrees, (((literals_are_read_alike .enclosing 0.5 t c).2 hplain hagrees _ _ _
    (Assignment.gives_ofRats t _ _) (fun _ _ => rfl) _).1 htrue).2⟩

end Credal
