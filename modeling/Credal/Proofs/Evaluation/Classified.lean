import Credal.Evaluation.Demand
import Credal.Proofs.Evaluation.Translated

/-!
# The failures of an evaluation

An evaluation fails for one of two reasons. A variable is undeclared: the failure lists all of them.
Or else a denominator is zero somewhere in the translated node: every part is evaluated, so it does
not matter where. An evaluation that fails for neither reason has a value.

* `Node.HasUndeclared`, `Node.missing`, `undeclared_eq_missing`: the variables that are listed;
* `Node.DividesByZero`: a division by a denominator that is zero;
* `RealExpr.guarded_neverByZero`, `Constraint.guarded_neverByZero`: what an evaluation comes to, by
  induction on the translated tree;
* `Classified`, `Node.classified`: the outcome of a search and an evaluation;
* `failures_are_classified`: doubles and exact numbers.
-/

namespace Credal

variable {α β : Type} {A : Arithmetic α} {zero : α → Prop} {t : TruthTable} {v : Assignment α}
variable {n : Node}

/-! ## 1. Undeclared variables -/

namespace Node

/-- Somewhere in a node there is a real variable without a value, or a letter that is not in the
    table. -/
def HasUndeclared (t : TruthTable) (v : Assignment α) (n : Node) : Prop :=
  (∃ p x, n.part? p = some (.real (.var x)) ∧ v.real x = none) ∨
    ∃ p s l, n.part? p = some s ∧ l ∈ s.ownLetters ∧ l ∉ t.letters

/-- The real variables without values and the letters that are not in the table, in the order of
    their places, each once. -/
def missing (t : TruthTable) (v : Assignment α) (n : Node) : Variables :=
  let reals := n.places.flatMap fun place => place.2.ownReals
  let letters := n.places.flatMap fun place => place.2.ownLetters
  ⟨(reals.filter fun x => (v.real x).isNone).eraseDups,
    (letters.filter fun l => !t.letters.contains l).eraseDups⟩

end Node

/-- **The search lists what is missing**, in the order in which it is met. -/
theorem undeclared_eq_missing (t : TruthTable) (v : Assignment α) (n : Node) :
    undeclared t v n = n.missing t v := by
  unfold undeclared Node.missing variablesOf
  simp only [List.flatMap_singleton]
  rw [filter_distinct, filter_distinct, distinct_eq_eraseDups, distinct_eq_eraseDups,
    n.reals_eq_flatMap_places, n.letters_eq_flatMap_places]

theorem Node.declared_iff : n.Declared t v ↔ ¬ n.HasUndeclared t v := by
  constructor
  · intro h hmissing
    rcases hmissing with ⟨p, x, hx, hnone⟩ | ⟨p, s, l, hs, hl, hnot⟩
    · exact Option.ne_none_iff_isSome.2 (h.reals x (mem_reals_iff.2 ⟨p, hx⟩)) hnone
    · exact hnot (h.letters l (mem_letters_iff.2 ⟨p, s, hs, hl⟩))
  · intro h
    refine ⟨fun l hl => ?_, fun x hx => ?_⟩
    · obtain ⟨p, s, hs, hown⟩ := mem_letters_iff.1 hl
      by_contra hnot
      exact h (Or.inr ⟨p, s, l, hs, hown, hnot⟩)
    · obtain ⟨p, hp⟩ := mem_reals_iff.1 hx
      by_contra hnot
      exact h (Or.inl ⟨p, x, hp, Option.not_isSome_iff_eq_none.1 hnot⟩)

/-! ## 2. Divisions by zero -/

namespace Node

/-- A node is a division whose denominator has a value that is zero. -/
def DividesByZero (A : Arithmetic α) (zero : α → Prop) (t : TruthTable) (v : Assignment α) :
    Node → Prop
  | .real (.divide _ b) => ∃ z, b.evaluate A t v = .ok (.ok z) ∧ zero z
  | _ => False

/-- No part of a node divides by zero. -/
def NeverByZero (A : Arithmetic α) (zero : α → Prop) (t : TruthTable) (v : Assignment α)
    (n : Node) : Prop :=
  n.Everywhere (¬ ·.DividesByZero A zero t v)

/-- Somewhere in a node there is a division whose denominator has a value that is zero. -/
def HasZeroDivision (A : Arithmetic α) (zero : α → Prop) (t : TruthTable) (v : Assignment α)
    (n : Node) : Prop :=
  ∃ p a b z, n.part? p = some (.real (.divide a b)) ∧ b.evaluate A t v = .ok (.ok z) ∧ zero z

theorem not_neverByZero_iff : ¬ n.NeverByZero A zero t v ↔ n.HasZeroDivision A zero t v := by
  constructor
  · intro h
    by_contra hnone
    refine h fun p s hs hzero => ?_
    unfold DividesByZero at hzero
    split at hzero
    · obtain ⟨z, hz, hzero⟩ := hzero
      exact hnone ⟨p, _, _, z, hs, hz, hzero⟩
    · exact hzero
  · intro h hnever
    obtain ⟨p, a, b, z, hp, hz, hzero⟩ := h
    exact hnever p _ hp ⟨z, hz, hzero⟩

/-- What an evaluation looks up in a node is a number. -/
def LooksUpNumbers (v : Assignment α) : Node → Prop
  | .real (.var x) => ∃ a, v.real x = some (.number a)
  | .real (.stateSum is) => ∀ i ∈ is, ∃ a, v.state i = some (.number a)
  | _ => True

/-- A translation looks up what the node does, and the states of the sums that are brought in. -/
theorem looksUpNumbers_translate
    (hstates : ∀ p is, (n.translate t).part? p = some (.real (.stateSum is)) →
      ∀ i ∈ is, ∃ a, v.state i = some (.number a))
    (hreals : ∀ x ∈ n.reals, ∃ a, v.real x = some (.number a)) :
    (n.translate t).Everywhere (·.LooksUpNumbers v) := by
  intro p s hs
  unfold LooksUpNumbers
  split
  · exact hreals _ (n.reals_translate (t := t) ▸ mem_reals_iff.2 ⟨p, hs⟩)
  · exact hstates p _ hs
  · trivial

variable {γ δ : Type} {m m' : Node}

theorem guarded_leaf {a : β} (h : n.children = []) (hn : ¬ n.DividesByZero A zero t v) :
    Guarded (n.NeverByZero A zero t v) (fun _ => True) (.ok (.ok a)) :=
  .value ((everywhere_leaf h).2 hn) a trivial

theorem guarded_single {r : Except AssignmentFault (Outcome β)} {f : β → γ}
    (h : n.children = [m]) (hn : ¬ n.DividesByZero A zero t v)
    (hm : Guarded (m.NeverByZero A zero t v) (fun _ => True) r) :
    Guarded (n.NeverByZero A zero t v) (fun _ => True) (do .ok ((← r).map f)) := by
  have hiff : n.NeverByZero A zero t v ↔ m.NeverByZero A zero t v :=
    (everywhere_single h).trans (and_iff_right hn)
  exact (hm.map fun _ h => h).congr hiff.symm fun _ h => h

/-- **Both parts are evaluated**, so a compound divides by zero where one of its parts does, or
    where it does so itself. -/
theorem guarded_pair {r : Except AssignmentFault (Outcome β)}
    {r' : Except AssignmentFault (Outcome γ)} {f : β → γ → Outcome δ} (h : n.children = [m, m'])
    (hm : Guarded (m.NeverByZero A zero t v) (fun _ => True) r)
    (hm' : Guarded (m'.NeverByZero A zero t v) (fun _ => True) r')
    (hf : ∀ x y, r = .ok (.ok x) → r' = .ok (.ok y) →
      Guarded (¬ n.DividesByZero A zero t v) (fun _ => True) (.ok (f x y))) :
    Guarded (n.NeverByZero A zero t v) (fun _ => True) (do
      let a ← r
      let b ← r'
      .ok (Outcome.combine f a b)) := by
  have hiff : n.NeverByZero A zero t v ↔ ¬ n.DividesByZero A zero t v ∧
      m.NeverByZero A zero t v ∧ m'.NeverByZero A zero t v := everywhere_pair h
  exact (hm.self.combine hm'.self hf).congr hiff.symm fun _ h => h

end Node

theorem Assignment.sumFrom_eq_ok {is : List Int} (h : ∀ i ∈ is, ∃ a, v.state i = some (.number a))
    (total : α) : ∃ a, sumFrom A v total is = .ok a := by
  induction is generalizing total with
  | nil => exact ⟨total, rfl⟩
  | cons i rest ih =>
    obtain ⟨⟨a, ha⟩, hrest⟩ := List.forall_mem_cons.1 h
    rw [sumFrom, ha]
    exact ih hrest (A.add total a)

section Evaluation

variable (hzero : ∀ x z, A.divide? x z = none ↔ zero z)
include hzero

/-- A quotient is a value unless the denominator is zero. -/
theorem RealExpr.guarded_quotient {a b : RealExpr} {x z : α} (hz : b.evaluate A t v = .ok (.ok z)) :
    Guarded (¬ (Node.real (.divide a b)).DividesByZero A zero t v) (fun _ => True)
      (.ok (A.quotient x z)) := by
  unfold Arithmetic.quotient
  cases h : A.divide? x z with
  | some q =>
    refine .value (fun hdiv => ?_) q trivial
    obtain ⟨z', hz', hzero'⟩ := hdiv
    rw [hz] at hz'
    cases hz'
    rw [(hzero x z).2 hzero'] at h
    exact nomatch h
  | none => exact .zeroDivision (not_not.2 ⟨z, hz, (hzero x z).1 h⟩)

/-- **An expression has a value unless it divides by zero somewhere.** -/
theorem RealExpr.guarded_neverByZero {e : RealExpr} (he : e.isTranslated = true)
    (hv : (Node.real e).Everywhere (·.LooksUpNumbers v)) :
    Guarded ((Node.real e).NeverByZero A zero t v) (fun _ => True) (e.evaluate A t v) := by
  induction e with
  | literal x => exact Node.guarded_leaf rfl id
  | var name =>
    obtain ⟨a, ha⟩ := (Node.everywhere_leaf rfl).1 hv
    rw [evaluate, ha]
    exact Node.guarded_leaf rfl id
  | stateSum is =>
    obtain ⟨a, ha⟩ := Assignment.sumFrom_eq_ok ((Node.everywhere_leaf rfl).1 hv) (A.ofDouble 0)
    rw [evaluate, Assignment.sum, ha]
    exact Node.guarded_leaf rfl id
  | probability S => exact absurd he Bool.false_ne_true
  | given S T => exact absurd he Bool.false_ne_true
  | negative e ih =>
    obtain ⟨-, hv⟩ := (Node.everywhere_single rfl).1 hv
    exact Node.guarded_single rfl id (ih he hv)
  | arith op a b iha ihb =>
    obtain ⟨ha, hb⟩ := Bool.and_eq_true_iff.1 he
    obtain ⟨-, hva, hvb⟩ := (Node.everywhere_pair rfl).1 hv
    exact Node.guarded_pair rfl (iha ha hva) (ihb hb hvb) fun x y _ _ =>
      .value id (A.apply op x y) trivial
  | divide a b iha ihb =>
    obtain ⟨ha, hb⟩ := Bool.and_eq_true_iff.1 he
    obtain ⟨-, hva, hvb⟩ := (Node.everywhere_pair rfl).1 hv
    exact Node.guarded_pair rfl (iha ha hva) (ihb hb hvb) fun _ _ _ hz =>
      guarded_quotient hzero hz
  | power a b iha ihb =>
    obtain ⟨ha, hb⟩ := Bool.and_eq_true_iff.1 he
    obtain ⟨-, hva, hvb⟩ := (Node.everywhere_pair rfl).1 hv
    exact Node.guarded_pair rfl (iha ha hva) (ihb hb hvb) fun x y _ _ =>
      .value id (A.power x y) trivial

/-- **A constraint has a truth value unless it divides by zero somewhere.** -/
theorem Constraint.guarded_neverByZero {c : Constraint} (hc : c.isTranslated = true)
    (hv : (Node.constraint c).Everywhere (·.LooksUpNumbers v)) :
    Guarded ((Node.constraint c).NeverByZero A zero t v) (fun _ => True) (c.evaluate A t v) := by
  induction c with
  | compare r a b =>
    obtain ⟨ha, hb⟩ := Bool.and_eq_true_iff.1 hc
    obtain ⟨-, hva, hvb⟩ := (Node.everywhere_pair rfl).1 hv
    exact Node.guarded_pair rfl (RealExpr.guarded_neverByZero hzero ha hva)
      (RealExpr.guarded_neverByZero hzero hb hvb) fun x y _ _ => .value id (A.compare r x y) trivial
  | negation c ih =>
    obtain ⟨-, hv⟩ := (Node.everywhere_single rfl).1 hv
    exact Node.guarded_single rfl id (ih hc hv)
  | binary k c d ihc ihd =>
    obtain ⟨hc, hd⟩ := Bool.and_eq_true_iff.1 hc
    obtain ⟨-, hvc, hvd⟩ := (Node.everywhere_pair rfl).1 hv
    refine Node.guarded_pair rfl (ihc hc hvc) (ihd hd hvd) fun x y _ _ => ?_
    exact .value id (k.holds x y) trivial

end Evaluation

/-! ## 3. Outcomes -/

theorem demanded_eq_ok_iff {r : Except AssignmentFault (Outcome β)} {b : β} :
    demanded r = .ok b ↔ r = .ok (.ok b) := by
  rcases r with f | f | b'
  · exact iff_of_false nofun nofun
  · exact iff_of_false nofun nofun
  · show Except.ok b' = .ok b ↔ _
    rw [Except.ok.injEq, Except.ok.injEq, Except.ok.injEq]

/-- **Each failure is raised** as the fault that belongs to it, and as no other. -/
theorem demanded_eq_error_iff {r : Except AssignmentFault (Outcome β)} {f : Failure} :
    demanded r = .error f.fault ↔ r = .ok (.error f) := by
  rcases r with f' | f' | b'
  · cases f <;> exact iff_of_false nofun nofun
  · have hinj : f'.fault = f.fault ↔ f' = f := by
      cases f' <;> cases f <;> simp [Failure.fault]
    show Except.error f'.fault = .error f.fault ↔ _
    rw [Except.error.injEq, Except.ok.injEq, Except.error.injEq, hinj]
  · exact iff_of_false nofun nofun

/-- What an evaluation of a node comes to as an outcome `r`, and as a value `d` on demand. -/
structure Classified (A : Arithmetic α) (zero : α → Prop) (t : TruthTable) (v : Assignment α)
    (n : Node) (r : Except AssignmentFault (Outcome β)) (d : Except EvaluationFault β) : Prop where
  undeclared : ∀ u, r = .ok (.error (.undeclared u)) ↔ n.HasUndeclared t v ∧ u = n.missing t v
  divisionByZero : r = .ok (.error .divisionByZero) ↔
    ¬ n.HasUndeclared t v ∧ (n.translate t).HasZeroDivision A zero t v
  value : (∃ b, r = .ok (.ok b)) ↔
    ¬ n.HasUndeclared t v ∧ ¬ (n.translate t).HasZeroDivision A zero t v
  /-- After the search no part is found undeclared, be it as it stands or as it is translated. -/
  unreached : ¬ n.HasUndeclared t v → ∀ p e,
    n.part? p = some (.real e) ∨ (n.translate t).part? p = some (.real e) →
    ∀ u, e.evaluate A t v ≠ .ok (.error (.undeclared u))
  raises : ∀ f : Failure, d = .error f.fault ↔ r = .ok (.error f)
  returns : ∀ b, d = .ok b ↔ r = .ok (.ok b)

/-- **An evaluation is classified** by the search before it and by the divisions in it. -/
theorem Node.classified {r : Except AssignmentFault (Outcome β)}
    (hzero : ∀ x z, A.divide? x z = none ↔ zero z)
    (hv : ¬ n.HasUndeclared t v → (n.translate t).Everywhere (·.LooksUpNumbers v))
    (hr : ¬ n.HasUndeclared t v →
      Guarded ((n.translate t).NeverByZero A zero t v) (fun _ => True) r) :
    Classified A zero t v n (unlessUndeclared t v n r) (demanded (unlessUndeclared t v n r)) := by
  by_cases hn : n.HasUndeclared t v
  · have hmissing : unlessUndeclared t v n r = .ok (.error (.undeclared (n.missing t v))) := by
      rw [← undeclared_eq_missing]
      exact unlessUndeclared_eq_error (mt declared_iff.1 (not_not.2 hn)) r
    rw [hmissing]
    refine ⟨fun u => ?_, iff_of_false nofun fun h => h.1 hn, iff_of_false nofun fun h => h.1 hn,
      fun h => absurd hn h, fun f => demanded_eq_error_iff, fun b => demanded_eq_ok_iff⟩
    rw [Except.ok.injEq, Except.error.injEq, Failure.undeclared.injEq]
    exact ⟨fun h => ⟨hn, h.symm⟩, fun h => h.2.symm⟩
  · rw [unlessUndeclared_eq (declared_iff.2 hn) r]
    refine ⟨fun u => iff_of_false ?_ fun h => hn h.1, ?_, ?_, fun _ p e he u => ?_,
      fun f => demanded_eq_error_iff, fun b => demanded_eq_ok_iff⟩
    · cases hr hn <;> exact nofun
    · rw [and_iff_right hn, ← not_neverByZero_iff]
      cases hr hn with
      | value h a _ => exact iff_of_false nofun (not_not.2 h)
      | zeroDivision h => exact iff_of_true rfl h
    · rw [and_iff_right hn, ← not_neverByZero_iff, not_not]
      cases hr hn with
      | value h a _ => exact iff_of_true ⟨a, rfl⟩ h
      | zeroDivision h => exact iff_of_false nofun h
    · -- a part of the node is evaluated as the part of the translation in its place
      have htranslated : ∃ e', (n.translate t).part? p = some (.real e') ∧
          e'.evaluate A t v = e.evaluate A t v := by
        rcases he with he | he
        · exact ⟨e.translate t, part?_translate he, e.evaluate_translate⟩
        · exact ⟨e, he, rfl⟩
      obtain ⟨e', he', heq⟩ := htranslated
      have hform : (Node.real e').isTranslated = true :=
        isTranslated_of_part (n.isTranslated_translate t) he'
      have hguarded : Guarded _ _ (e'.evaluate A t v) :=
        RealExpr.guarded_neverByZero hzero hform ((hv hn).part he')
      rw [← heq]
      intro hundeclared
      rw [hundeclared] at hguarded
      exact nomatch hguarded

/-! ## 4. Number systems -/

/-- What is found in a list of numbers is a number. -/
theorem lookup_map_number {κ : Type} [BEq κ] (l : List (κ × α)) (k : κ) :
    (l.map fun (i, a) => (i, Assigned.number a)).lookup k = (l.lookup k).map .number := by
  induction l with
  | nil => rfl
  | cons x rest ih =>
    rw [List.map_cons, List.lookup_cons, List.lookup_cons, ih]
    cases k == x.1 <;> rfl

theorem exists_lookup_number {κ : Type} [BEq κ] [LawfulBEq κ] {l : List (κ × α)} {k : κ}
    (h : k ∈ l.map Prod.fst) :
    ∃ a, (l.map fun (i, a) => (i, Assigned.number a)).lookup k = some (.number a) := by
  obtain ⟨x, hx, rfl⟩ := List.mem_map.1 h
  have hsome : (l.lookup x.1).isSome = true := List.lookup_isSome_iff.2 ⟨x, hx, beq_self_eq_true _⟩
  obtain ⟨a, ha⟩ := Option.isSome_iff_exists.1 hsome
  exact ⟨a, by rw [lookup_map_number, ha]; rfl⟩

theorem ite_none_eq_none_iff {p : Prop} [Decidable p] {a : α} :
    (if p then none else some a) = none ↔ p := by
  split
  · exact iff_of_true rfl ‹p›
  · exact iff_of_false nofun ‹¬ p›

namespace Arithmetic

/-- Doubles have no quotient by a zero of either sign. -/
theorem double_divide?_eq_none_iff {tolerance : Float} (x z : Float) :
    (double tolerance).divide? x z = none ↔ (z == 0) = true :=
  ite_none_eq_none_iff

/-- Exact numbers have no quotient by a number whose sign is zero. -/
theorem exact_divide?_eq_none_iff {sys : AlgebraSystem} (x z : Exact) :
    (exact sys).divide? x z = none ↔ z.sign? sys = some 0 :=
  ite_none_eq_none_iff

end Arithmetic

/-- The states that are summed up in the translation of a node are among those with the given
    indices. -/
def Node.StatesAmong (t : TruthTable) (indices : List Int) (n : Node) : Prop :=
  ∀ p is, (n.translate t).part? p = some (.real (.stateSum is)) → is ⊆ indices

/-- A node without sums of states asks for no states but those of the table. -/
theorem Node.statesAmong_of_isSource (h : n.isSource = true) {indices : List Int}
    (hall : ∀ i < t.stateCount, (i : Int) ∈ indices) : n.StatesAmong t indices := by
  intro p is hp i hi
  obtain ⟨k, hk, rfl⟩ := (properSum_of_isSource h hp).exists_state hi
  exact hall k hk

/-- An evaluation looks up numbers where the assignment is made of numbers. -/
theorem Node.looksUpNumbers_ofLists {states : List (Int × α)} {reals : List (String × α)}
    (hstates : n.StatesAmong t (states.map Prod.fst))
    (hn : ¬ n.HasUndeclared t (.ofLists states reals)) :
    (n.translate t).Everywhere (·.LooksUpNumbers (.ofLists states reals)) := by
  refine looksUpNumbers_translate (fun p is hp i hi => exists_lookup_number (hstates p is hp hi))
    fun x hx => ?_
  obtain ⟨a, ha⟩ := Option.isSome_iff_exists.1 ((declared_iff.2 hn).reals x hx)
  have hlookup : (reals.lookup x).map Assigned.number = some a :=
    (lookup_map_number reals x).symm.trans ha
  obtain ⟨b, hb, rfl⟩ := Option.map_eq_some_iff.1 hlookup
  exact ⟨b, ha⟩

/-- Every failure over a number system is classified: for all tables, for all numbers that are given
    to states, as long as none of the states that are asked for is left out, for all numbers that
    are given to real variables, and for all expressions and constraints. -/
def Arithmetic.ClassifiesFailures (A : Arithmetic α) (zero : α → Prop) : Prop :=
  ∀ (t : TruthTable) (states : List (Int × α)) (reals : List (String × α)),
    let v : Assignment α := .ofLists states reals
    (∀ e : RealExpr, (Node.real e).StatesAmong t (states.map Prod.fst) →
      Classified A zero t v (.real e) (e.outcome A t v) (e.demand A t v)) ∧
    ∀ c : Constraint, (Node.constraint c).StatesAmong t (states.map Prod.fst) →
      Classified A zero t v (.constraint c) (c.outcome A t v) (c.demand A t v)

theorem Arithmetic.classifiesFailures (hzero : ∀ x z, A.divide? x z = none ↔ zero z) :
    A.ClassifiesFailures zero := by
  intro t states reals
  constructor
  · intro e hstates
    refine Node.classified hzero (Node.looksUpNumbers_ofLists hstates) fun hn => ?_
    rw [← e.evaluate_translate]
    exact RealExpr.guarded_neverByZero hzero (e.isTranslated_translate t)
      (Node.looksUpNumbers_ofLists hstates hn)
  · intro c hstates
    refine Node.classified hzero (Node.looksUpNumbers_ofLists hstates) fun hn => ?_
    rw [← c.evaluate_translate]
    exact Constraint.guarded_neverByZero hzero (c.isTranslated_translate t)
      (Node.looksUpNumbers_ofLists hstates hn)

/-- **Every failure is classified exactly**, over any number system whose quotients are missing
    exactly where the divisor is zero: over doubles with any tolerance and over exact numbers with
    any computer algebra system. An evaluation fails with the undeclared variables of the node if
    there are any, otherwise with a division by zero if some denominator in the translated node is
    zero, and otherwise it has a value; on demand it raises the fault of its failure. -/
theorem failures_are_classified :
    (∀ (α : Type) (A : Arithmetic α) (zero : α → Prop),
      (∀ x z, A.divide? x z = none ↔ zero z) → A.ClassifiesFailures zero) ∧
    (∀ tolerance, (Arithmetic.double tolerance).ClassifiesFailures fun z => (z == 0) = true) ∧
    ∀ sys, (Arithmetic.exact sys).ClassifiesFailures fun z => z.sign? sys = some 0 :=
  ⟨fun _ _ _ => Arithmetic.classifiesFailures,
    fun _ => Arithmetic.classifiesFailures Arithmetic.double_divide?_eq_none_iff,
    fun _ => Arithmetic.classifiesFailures Arithmetic.exact_divide?_eq_none_iff⟩

/-- A disjunction divides by zero though its left part is true; a quotient by zero of an undeclared
    letter is undeclared. The difference of equal powers is zero though they are not algebraic. -/
theorem failures_are_classified_of_quotients :
    let t : TruthTable := ⟨[⟨"P", 0⟩], List.nodup_singleton _⟩
    let root : Exact := .finite (.ofRoot [-2, 0, 1] 1)
    let v : Assignment Exact :=
      .ofLists [(0, .ofRat 1), (1, .ofRat 0)] [("x", .ofRat 0), ("z", root)]
    let P : RealExpr := .probability (.letter ⟨"P", 0⟩)
    let Q : RealExpr := .probability (.letter ⟨"Q", 0⟩)
    let c : Constraint := .binary .disjunction (.compare .equal (.var "x") (.literal 0))
      (.compare .less (.divide P (.var "x")) (.literal 1))
    let e : RealExpr := .arith .plus (.var "y") (.divide Q (.var "x"))
    let power : RealExpr := .power (.literal 2) (.var "z")
    let d : RealExpr := .divide (.literal 1) (.arith .minus power power)
    c.demand (.exact .enclosing) t v = .error .divisionByZero ∧
      e.demand (.exact .enclosing) t v = .error (.undeclared ⟨["y"], [⟨"Q", 0⟩]⟩) ∧
      d.demand (.exact .enclosing) t v = .error .divisionByZero := by
  intro t root v P Q c e power d
  obtain ⟨hreals, hconstraints⟩ := failures_are_classified.2.2 .enclosing t
    [(0, .ofRat 1), (1, .ofRat 0)] [("x", .ofRat 0), ("z", root)]
  have hall : ∀ i < t.stateCount, (i : Int) ∈ [(0 : Int), 1] := by decide
  refine ⟨?_, ?_, ?_⟩
  · have hc := hconstraints c (Node.statesAmong_of_isSource rfl hall)
    have hdeclared : ¬ (Node.constraint c).HasUndeclared t v :=
      Node.declared_iff.1 ⟨by decide, by decide +kernel⟩
    have hzero : ((Node.constraint c).translate t).HasZeroDivision (.exact .enclosing)
        (fun z => z.sign? .enclosing = some 0) t v :=
      ⟨[1, 0], .stateSum [0], .var "x", .ofRat 0, by decide +kernel, rfl, by decide +kernel⟩
    exact (hc.raises .divisionByZero).2 (hc.divisionByZero.2 ⟨hdeclared, hzero⟩)
  · have he := hreals e (Node.statesAmong_of_isSource rfl hall)
    have hmissing : (Node.real e).missing t v = ⟨["y"], [⟨"Q", 0⟩]⟩ := by decide +kernel
    have hundeclared : (Node.real e).HasUndeclared t v := Or.inl ⟨[0], "y", rfl, rfl⟩
    exact (he.raises (.undeclared _)).2 ((he.undeclared _).2 ⟨hundeclared, hmissing.symm⟩)
  · have hd := hreals d (Node.statesAmong_of_isSource rfl hall)
    have hdeclared : ¬ (Node.real d).HasUndeclared t v :=
      Node.declared_iff.1 ⟨by decide, by decide +kernel⟩
    let p : Exact := .raised (.ofRat 2) root
    have hzero : ((Node.real d).translate t).HasZeroDivision (.exact .enclosing)
        (fun z => z.sign? .enclosing = some 0) t v :=
      ⟨[], .literal 1, .arith .minus power power, .sum p (.opposite p), by decide +kernel,
        by decide +kernel, by decide +kernel⟩
    exact (hd.raises .divisionByZero).2 (hd.divisionByZero.2 ⟨hdeclared, hzero⟩)

end Credal
