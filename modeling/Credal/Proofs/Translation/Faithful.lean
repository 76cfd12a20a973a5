import Credal.Exact.Enclosed
import Credal.Proofs.Evaluation.Guarded
import Credal.Proofs.Translation.Reading

/-!
# Translated problems have the models of the original ones

Axioms, guards and translated constraints are read in a field where every quotient has a value;
the original constraints are evaluated with a division that may fail. The guards of a tree are true
exactly if no division of its evaluation fails, and then both give the same value.

* `RealExpr.PlainOver`, `Constraint.PlainOver`: the trees whose values are rational;
* `RealExpr.guarded_evaluate`, `Constraint.guarded_evaluate`: by induction on the tree, the guards
  are the condition of its evaluation;
* `Constraint.outcome_eq_true_iff`: one constraint;
* `enriched_holds_iff`: a whole problem, read in the real numbers.
-/

namespace Credal

open Credal.Number

/-! ## 1. Plain trees -/

/-- The letters and states of an expression are those of the table, its literals are finite and its
    exponents natural literals. -/
def RealExpr.PlainOver (t : TruthTable) : RealExpr → Prop
  | .literal x => x.isFinite = true
  | .var _ => True
  | .stateSum is => ∀ i ∈ is, 0 ≤ i ∧ i < t.stateCount
  | .probability S => ∀ l ∈ S.letters, l ∈ t.letters
  | .given S T => (∀ l ∈ S.letters, l ∈ t.letters) ∧ ∀ l ∈ T.letters, l ∈ t.letters
  | .negative e => e.PlainOver t
  | .arith _ a b | .divide a b => a.PlainOver t ∧ b.PlainOver t
  | .power a b => a.PlainOver t ∧
      ∃ (x : Float) (n : Nat), b = .literal x ∧ Double.integer? x = some (n : Int)

/-- Both sides of all comparisons are plain. -/
def Constraint.PlainOver (t : TruthTable) : Constraint → Prop
  | .compare _ a b => a.PlainOver t ∧ b.PlainOver t
  | .negation c => c.PlainOver t
  | .binary _ c d => c.PlainOver t ∧ d.PlainOver t

variable {t : TruthTable} {sys : AlgebraSystem}

theorem RealExpr.PlainOver.letters {e : RealExpr} (h : e.PlainOver t) :
    ∀ l ∈ e.letters, l ∈ t.letters := by
  induction e with
  | literal x => exact fun _ hl => nomatch hl
  | var name => exact fun _ hl => nomatch hl
  | stateSum is => exact fun _ hl => nomatch hl
  | probability S => exact h
  | given S T => exact List.forall_mem_append.2 h
  | negative e ih => exact ih h
  | arith op a b iha ihb => exact List.forall_mem_append.2 ⟨iha h.1, ihb h.2⟩
  | divide a b iha ihb => exact List.forall_mem_append.2 ⟨iha h.1, ihb h.2⟩
  | power a b iha ihb =>
    obtain ⟨ha, x, n, rfl, -⟩ := h
    exact List.forall_mem_append.2 ⟨iha ha, fun _ hl => nomatch hl⟩

theorem Constraint.PlainOver.letters {c : Constraint} (h : c.PlainOver t) :
    ∀ l ∈ c.letters, l ∈ t.letters := by
  induction c with
  | compare r a b => exact List.forall_mem_append.2 ⟨h.1.letters, h.2.letters⟩
  | negation c ih => exact ih h
  | binary k c d ihc ihd => exact List.forall_mem_append.2 ⟨ihc h.1, ihd h.2⟩

/-- A natural literal stands for its number. -/
theorem exists_shortest?_of_natural {x : Float} {n : Nat}
    (h : Double.integer? x = some (n : Int)) : ∃ m : Nat, Double.shortest? x = some (m : ℚ) := by
  obtain ⟨j, hj, hpos⟩ := Double.exists_shortest?_of_integer? h
  obtain ⟨m, rfl⟩ := Int.eq_ofNat_of_zero_le (hpos (Int.natCast_nonneg n))
  exact ⟨m, by rw [hj, Int.cast_natCast]⟩

theorem RealExpr.PlainOver.finite {e : RealExpr} (h : e.PlainOver t) :
    ∀ x ∈ e.literals, x.isFinite = true := by
  induction e with
  | literal x => exact List.forall_mem_singleton.2 h
  | var name => exact fun _ hx => nomatch hx
  | stateSum is => exact fun _ hx => nomatch hx
  | probability S => exact fun _ hx => nomatch hx
  | given S T => exact fun _ hx => nomatch hx
  | negative e ih => exact ih h
  | arith op a b iha ihb => exact List.forall_mem_append.2 ⟨iha h.1, ihb h.2⟩
  | divide a b iha ihb => exact List.forall_mem_append.2 ⟨iha h.1, ihb h.2⟩
  | power a b iha ihb =>
    obtain ⟨ha, x, n, rfl, hn⟩ := h
    obtain ⟨m, hm⟩ := exists_shortest?_of_natural hn
    have hx : x.isFinite = true := (Double.isSome_shortest?_iff x).1 (by rw [hm]; rfl)
    exact List.forall_mem_append.2 ⟨iha ha, List.forall_mem_singleton.2 hx⟩

/-! ## 2. Guards and evaluation -/

section

variable {K : Type*} [Field K] [LinearOrder K]

/-- A rational number whose value in the field is the given one. -/
def Exact.Denotes (x : K) (a : Exact) : Prop := ∃ q : ℚ, a = .ofRat q ∧ (q : K) = x

variable [IsStrictOrderedRing K] {R : Reading K} {v : Assignment Exact} {s : Nat → ℚ}
  {r : String → ℚ}

theorem Exact.Denotes.apply {x y : K} {a b : Exact} (op : ArithOp) (ha : Denotes x a)
    (hb : Denotes y b) : Denotes (op.on x y) ((Arithmetic.exact sys).apply op a b) := by
  obtain ⟨p, rfl, rfl⟩ := ha
  obtain ⟨q, rfl, rfl⟩ := hb
  refine ⟨op.on p q, Arithmetic.apply_ofRat op p q, ?_⟩
  cases op with
  | plus => exact Rat.cast_add p q
  | minus => exact Rat.cast_sub p q
  | times => exact Rat.cast_mul p q

/-- A quotient is guarded by its divisor. -/
theorem Exact.Denotes.quotient {x y : K} {a b : Exact} (ha : Denotes x a) (hb : Denotes y b) :
    Guarded (y ≠ 0) (Denotes (R.quotient x y)) (.ok ((Arithmetic.exact sys).quotient a b)) := by
  obtain ⟨p, rfl, rfl⟩ := ha
  obtain ⟨q, rfl, rfl⟩ := hb
  rw [Arithmetic.quotient_ofRat, Reading.quotient]
  by_cases h : q = 0
  · rw [if_pos h]
    exact .zeroDivision (not_not.2 (Rat.cast_eq_zero.2 h))
  · have hK : (q : K) ≠ 0 := Rat.cast_ne_zero.2 h
    rw [if_neg h, if_neg hK]
    exact .value hK _ ⟨p / q, rfl, Rat.cast_div p q⟩

theorem Exact.Denotes.compare {x y : K} {a b : Exact} (k : Relation) (ha : Denotes x a)
    (hb : Denotes y b) : (Arithmetic.exact sys).compare k a b = k.holdsFor x y := by
  obtain ⟨p, rfl, rfl⟩ := ha
  obtain ⟨q, rfl, rfl⟩ := hb
  rw [Arithmetic.compare_ofRat, Relation.holdsFor_cast]

/-- The mass of a sentence means the same in both ways. -/
theorem value_mass (hR : R.Gives s r) (t : TruthTable) (S : Sentence) :
    (t.mass S).value R = (t.share s S : K) := by
  unfold TruthTable.mass TruthTable.share
  simp only
  by_cases h : (t.dnf S).length = t.stateCount
  · rw [if_pos h, if_pos h, RealExpr.value, hR.literal_one]
  · rw [if_neg h, if_neg h, hR.value_stateSum, List.map_map]
    rfl

theorem exists_mass_denotes (hR : R.Gives s r) (hv : v.Gives t s) (S : Sentence) :
    ∃ a, v.mass (.exact sys) t S = .ok a ∧ Exact.Denotes ((t.mass S).value R) a :=
  ⟨_, TruthTable.mass_eq hv S, t.share s S, rfl, (value_mass hR t S).symm⟩

omit [IsStrictOrderedRing K] in
/-- Without divisions there is nothing to guard. -/
theorem Guarded.unguarded {α : Type} {P : α → Prop} {a : α} (ha : P a) :
    Guarded (R.Satisfies []) P (.ok (.ok a)) :=
  .value R.satisfies_nil a ha

omit [IsStrictOrderedRing K] in
/-- The guards of two parts, where their operation cannot fail. -/
theorem Guarded.both {α β γ : Type} {P : α → Prop} {Q : β → Prop} {S : γ → Prop}
    {gs hs : List Constraint} {r₁ : Except AssignmentFault (Outcome α)}
    {r₂ : Except AssignmentFault (Outcome β)} {f : α → β → γ}
    (h₁ : Guarded (R.Satisfies gs) P r₁) (h₂ : Guarded (R.Satisfies hs) Q r₂)
    (hf : ∀ a b, P a → Q b → S (f a b)) :
    Guarded (R.Satisfies (gs ++ hs)) S (do
      let a ← r₁
      let b ← r₂
      .ok (Outcome.combine (fun x y => .ok (f x y)) a b)) := by
  have h : Guarded (True ∧ R.Satisfies gs ∧ R.Satisfies hs) S _ :=
    h₁.combine h₂ fun a b ha hb => .value trivial (f a b) (hf a b ha hb)
  rw [true_and] at h
  exact h.congr R.satisfies_append.symm fun _ h => h

/-- A conditional probability is a quotient of masses: its only guard is that of its condition. -/
theorem RealExpr.guarded_given (hR : R.Gives s r) (hv : v.Gives t s) (S T : Sentence) :
    Guarded (R.Satisfies ((RealExpr.given S T).translate t).guards)
      (Exact.Denotes (((RealExpr.given S T).translate t).value R))
      ((RealExpr.given S T).evaluate (.exact sys) t v) := by
  obtain ⟨a, ha, hboth⟩ := exists_mass_denotes hR hv (.binary .conjunction S T)
  obtain ⟨b, hb, hT⟩ := exists_mass_denotes hR hv T
  have hown := hR.satisfies_ownGuard (t.ready_mass T).2
  rw [evaluate, ha, hb, translate, guards, t.guards_mass, t.guards_mass, List.append_nil,
    List.append_nil]
  exact (hboth.quotient hT).congr hown.symm fun _ h => h

omit [IsStrictOrderedRing K] in
/-- A power with a natural literal as exponent is guarded by its base. -/
theorem RealExpr.guarded_power (hR : R.Gives s r) {e : RealExpr} {x : Float} {n : Nat}
    (hn : Double.integer? x = some (n : Int))
    (he : Guarded (R.Satisfies (e.translate t).guards) (Exact.Denotes ((e.translate t).value R))
      (e.evaluate (.exact sys) t v)) :
    Guarded (R.Satisfies ((RealExpr.power e (.literal x)).translate t).guards)
      (Exact.Denotes (((RealExpr.power e (.literal x)).translate t).value R))
      ((RealExpr.power e (.literal x)).evaluate (.exact sys) t v) := by
  obtain ⟨m, hm⟩ := exists_shortest?_of_natural hn
  have hexponent : Guarded (R.Satisfies []) (· = Exact.ofRat m)
      ((RealExpr.literal x).evaluate (.exact sys) t v) := .unguarded (Exact.ofDouble_eq hm)
  refine he.both hexponent fun c d hc hd => ?_
  obtain ⟨q, rfl, hq⟩ := hc
  rw [hd]
  refine ⟨q ^ m, @Exact.power_ofRat_natCast sys q m, ?_⟩
  rw [Rat.cast_pow, hq, translate, value, translate, value, hR.literal hm, Rat.cast_natCast,
    hR.power]

/-- **The guards of an expression are the condition of its evaluation**, and where they are true
    the value is that of the translation. -/
theorem RealExpr.guarded_evaluate (hR : R.Gives s r) (hv : v.Gives t s) {e : RealExpr}
    (hr : ∀ x ∈ e.reals, v.real x = some (.number (.ofRat (r x)))) (he : e.PlainOver t) :
    Guarded (R.Satisfies (e.translate t).guards) (Exact.Denotes ((e.translate t).value R))
      (e.evaluate (.exact sys) t v) := by
  induction e with
  | literal x =>
    obtain ⟨q, hq⟩ := Option.isSome_iff_exists.1 ((Double.isSome_shortest?_iff x).2 he)
    exact .unguarded ⟨q, Exact.ofDouble_eq hq, (hR.literal hq ▸ rfl)⟩
  | var name =>
    rw [evaluate, hr name (List.mem_singleton_self name)]
    exact .unguarded ⟨r name, rfl, (hR.real name).symm⟩
  | stateSum is =>
    rw [evaluate, Assignment.sum_ofRat hv he]
    exact .unguarded ⟨_, rfl, (hR.value_stateSum is).symm⟩
  | probability S =>
    obtain ⟨a, ha, hS⟩ := exists_mass_denotes hR hv S
    rw [evaluate, ha, translate, t.guards_mass]
    exact .unguarded hS
  | given S T => exact guarded_given hR hv S T
  | negative e ih =>
    refine (ih hr he).map fun a ha => ?_
    obtain ⟨q, rfl, hq⟩ := ha
    exact ⟨-q, rfl, by rw [Rat.cast_neg, hq]; rfl⟩
  | arith op a b iha ihb =>
    obtain ⟨hra, hrb⟩ := List.forall_mem_append.1 hr
    exact (iha hra he.1).both (ihb hrb he.2) fun _ _ ha hb => ha.apply op hb
  | divide a b iha ihb =>
    obtain ⟨hra, hrb⟩ := List.forall_mem_append.1 hr
    have hown := hR.satisfies_ownGuard (RealExpr.ready_translate t he.2.finite).2
    -- the guards of a quotient stand first, then those of its sides: the order of `combine`
    refine ((iha hra he.1).combine (ihb hrb he.2) fun _ _ ha hb => ha.quotient hb).congr ?_
      fun _ h => h
    rw [translate, guards, R.satisfies_append, R.satisfies_append, hown, and_assoc]
  | power a b iha ihb =>
    -- the exponent is a literal, so no induction hypothesis is used for it
    obtain ⟨hra, -⟩ := List.forall_mem_append.1 hr
    obtain ⟨ha, x, n, rfl, hn⟩ := he
    exact guarded_power hR hn (iha hra ha)

/-- **The guards of a constraint are the condition of its evaluation.** -/
theorem Constraint.guarded_evaluate (hR : R.Gives s r) (hv : v.Gives t s) {c : Constraint}
    (hr : ∀ x ∈ c.reals, v.real x = some (.number (.ofRat (r x)))) (hc : c.PlainOver t) :
    Guarded (R.Satisfies (c.translate t).guards) (· = (c.translate t).holdsIn R)
      (c.evaluate (.exact sys) t v) := by
  induction c with
  | compare k a b =>
    obtain ⟨hra, hrb⟩ := List.forall_mem_append.1 hr
    exact (RealExpr.guarded_evaluate hR hv hra hc.1).both
      (RealExpr.guarded_evaluate hR hv hrb hc.2) fun _ _ ha hb => ha.compare k hb
  | negation c ih => exact (ih hr hc).map fun b hb => congrArg (!·) hb
  | binary k c d ihc ihd =>
    obtain ⟨hrc, hrd⟩ := List.forall_mem_append.1 hr
    exact (ihc hrc hc.1).both (ihd hrd hc.2) fun _ _ hc hd => congrArg₂ k.holds hc hd

/-! ## 3. Problems -/

/-- An original constraint is true if its translation and the guards of it are. -/
theorem Constraint.outcome_eq_true_iff (hR : R.Gives s r) (hv : v.Gives t s) {c : Constraint}
    (hr : ∀ x ∈ c.reals, v.real x = some (.number (.ofRat (r x)))) (hc : c.PlainOver t) :
    c.outcome (.exact sys) t v = .ok (.ok true) ↔
      R.Satisfies (c.translate t).guards ∧ (c.translate t).holdsIn R = true := by
  have hdeclared : (Node.constraint c).Declared t v :=
    ⟨hc.letters, fun x hx => by rw [hr x hx]; rfl⟩
  rw [outcome, unlessUndeclared_eq hdeclared]
  exact (Constraint.guarded_evaluate hR hv hr hc).eq_true_iff

/-- The side conditions and the translations of constraints are true if the values of the states are
    a distribution and all constraints are true. -/
theorem Reading.Gives.satisfies_enrich_iff (hR : R.Gives s r) (hv : v.Gives t s)
    {cs : List Constraint} (hr : ∀ c ∈ cs, ∀ x ∈ c.reals, v.real x = some (.number (.ofRat (r x))))
    (hcs : ∀ c ∈ cs, c.PlainOver t) (regular : Bool) :
    R.Satisfies (enrich t regular (cs.map (·.translate t))) ↔
      (∀ i < t.stateCount, if regular then 0 < s i else 0 ≤ s i) ∧
      ∑ i ∈ Finset.range t.stateCount, s i = 1 ∧
      ∀ c ∈ cs, c.outcome (.exact sys) t v = .ok (.ok true) := by
  have htranslated : R.Satisfies (cs.map (·.translate t)) ↔
      ∀ c ∈ cs, (c.translate t).holdsIn R = true := List.forall_mem_map
  rw [R.satisfies_enrich, hR.satisfies_probabilityAxioms, List.forall_mem_map, htranslated,
    and_assoc, ← forall₂_and]
  refine and_congr_right fun _ => and_congr_right fun _ => forall₂_congr fun c hc => ?_
  exact (Constraint.outcome_eq_true_iff hR hv (hr c hc) (hcs c hc)).symm

end

/-- Values in the real numbers: a quotient by zero is what `overZero` says. -/
noncomputable def Reading.ofRats (s : Nat → ℚ) (r : String → ℚ) (overZero : ℝ → ℝ) :
    Reading ℝ where
  literal x := (Double.shortest? x).getD 0
  state i := s i.toNat
  real x := r x
  overZero := overZero
  power b e := b ^ e

theorem Reading.gives_ofRats (s : Nat → ℚ) (r : String → ℚ) (overZero : ℝ → ℝ) :
    (Reading.ofRats s r overZero).Gives s r where
  literal h := congrArg (·.getD 0) h
  state _ := rfl
  real _ := rfl
  power := Real.rpow_natCast

/-- **No model is lost and none is spurious.** Read in the real numbers with any meaning of
    quotients by zero, a translated problem is true exactly if the values of the states are a
    distribution, a positive one in regular mode, and every original constraint is evaluated to
    true, so that no division of it fails. -/
theorem enriched_holds_iff (sys : AlgebraSystem) (regular : Bool) {cs : List Constraint}
    (hcs : ∀ c ∈ cs, c.PlainOver t) {s : Nat → ℚ} {r : String → ℚ} {v : Assignment Exact}
    (hv : v.Gives t s)
    (hr : ∀ c ∈ cs, ∀ x ∈ c.reals, v.real x = some (.number (.ofRat (r x)))) (overZero : ℝ → ℝ) :
    (∀ c ∈ enrich t regular (cs.map (·.translate t)),
      c.holdsIn (.ofRats s r overZero) = true) ↔
    (∀ i < t.stateCount, if regular then 0 < s i else 0 ≤ s i) ∧
    ∑ i ∈ Finset.range t.stateCount, s i = 1 ∧
    ∀ c ∈ cs, c.outcome (.exact sys) t v = .ok (.ok true) :=
  (Reading.gives_ofRats s r overZero).satisfies_enrich_iff hv hr hcs regular

/-- The probability of one of two equal states over a variable is one where the variable is one
    half, but not where it is zero, even if every quotient by zero is one. -/
theorem enriched_holds_iff_of_quotient :
    let t : TruthTable := ⟨[⟨"P", 0⟩], List.nodup_singleton _⟩
    let c : Constraint := .compare .equal
      (.divide (.probability (.letter ⟨"P", 0⟩)) (.var "x")) (.literal 1)
    let R : ℚ → Reading ℝ := fun x => .ofRats (fun _ => 1 / 2) (fun _ => x) fun _ => 1
    (∀ d ∈ enrich t true ([c].map (·.translate t)), d.holdsIn (R (1 / 2)) = true) ∧
    ¬ ∀ d ∈ enrich t true ([c].map (·.translate t)), d.holdsIn (R 0) = true := by
  intro t c R
  have hc : ∀ d ∈ [c], d.PlainOver t := List.forall_mem_singleton.2
    ⟨⟨fun _ hl => hl, trivial⟩, (by decide +kernel : (1 : Float).isFinite = true)⟩
  have h := fun x : ℚ => enriched_holds_iff .enclosing true hc
    (Assignment.gives_ofRats t (fun _ => 1 / 2) fun _ => x) (fun _ _ _ _ => rfl) fun _ => 1
  refine ⟨(h (1 / 2)).2 ⟨fun _ _ => one_half_pos, ?_, List.forall_mem_singleton.2 ?_⟩, fun h0 => ?_⟩
  · decide +kernel
  · decide +kernel
  · have hfails : c.outcome (.exact .enclosing) t (.ofRats (fun _ => 1 / 2) fun _ => 0) =
        .ok (.error .divisionByZero) := by decide +kernel
    have htrue := ((h 0).1 h0).2.2 c (List.mem_singleton_self c)
    rw [hfails] at htrue
    exact nomatch htrue

end Credal
