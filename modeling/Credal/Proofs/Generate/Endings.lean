import Credal.Generate.Random

/-!
# How generators end

A generator ends from every state of its source, with a value or with a fault. What is said about
it here holds whatever the source draws.

* `Gen.run_bind_ok`, `Gen.run_bind_error`: one generator after another, from one state;
* `Gen.Ends`: the values and the faults that a generator may end with; `Gen.Ends.exists_ok` and
  `Gen.Ends.ok_or_error` for a single run;
* `Gen.Ends.bind`, `Gen.Ends.map`, `Gen.ends_mapM`: one generator after another;
* `Gen.ends_below`, `Gen.ends_pick`, `Gen.ends_coin`, `Gen.ends_unit`: one draw.
-/

namespace Credal.Gen

variable {σ α β : Type} {g : Gen σ α} {k : α → Gen σ β}

/-! ## 1. Runs -/

section

variable {s s' : σ} {a : α} {f : GenFault}

theorem run_bind_ok (h : g.run s = (.ok a, s')) : (g >>= k).run s = (k a).run s' := by
  show (match g.run s with | (r, s') => ExceptT.bindCont k r s') = _
  rw [h]
  rfl

theorem run_bind_error (h : g.run s = (.error f, s')) : (g >>= k).run s = (.error f, s') := by
  show (match g.run s with | (r, s') => ExceptT.bindCont k r s') = _
  rw [h]
  rfl

end

variable {P P' : α → Prop} {Q : β → Prop} {F F' : GenFault → Prop}

/-- From every state of the source the generator ends with a value that has `P`, or with a fault
    that has `F`. -/
def Ends (P : α → Prop) (F : GenFault → Prop) (g : Gen σ α) : Prop :=
  ∀ s, match (g.run s).1 with
    | .ok a => P a
    | .error f => F f

/-- No fault. -/
def Never : GenFault → Prop := fun _ => False

theorem Ends.ok_or_error (h : g.Ends P F) (s : σ) :
    (∃ a s', g.run s = (.ok a, s') ∧ P a) ∨ ∃ f s', g.run s = (.error f, s') ∧ F f := by
  have hs := h s
  rcases hrun : g.run s with ⟨f | a, s'⟩
  · rw [hrun] at hs
    exact .inr ⟨f, s', rfl, hs⟩
  · rw [hrun] at hs
    exact .inl ⟨a, s', rfl, hs⟩

/-- **A generator without faults ends with a value.** -/
theorem Ends.exists_ok (h : g.Ends P Never) (s : σ) : ∃ a s', g.run s = (.ok a, s') ∧ P a :=
  (h.ok_or_error s).resolve_right fun ⟨_, _, _, hf⟩ => hf

theorem ends_of_run (h : ∀ s, (∃ a s', g.run s = (.ok a, s') ∧ P a) ∨
    ∃ f s', g.run s = (.error f, s') ∧ F f) : g.Ends P F := by
  intro s
  rcases h s with ⟨a, s', hrun, ha⟩ | ⟨f, s', hrun, hf⟩
  · rw [hrun]
    exact ha
  · rw [hrun]
    exact hf

theorem Ends.mono (h : g.Ends P F) (hP : ∀ a, P a → P' a) : g.Ends P' F :=
  ends_of_run fun s => (h.ok_or_error s).imp_left fun ⟨a, s', hrun, ha⟩ => ⟨a, s', hrun, hP a ha⟩

/-! ## 2. One after another -/

theorem ends_pure {a : α} (h : P a) : (pure a : Gen σ α).Ends P F := fun _ => h

/-- **What follows goes on with the value and the state before it**; a fault is kept. -/
theorem Ends.bind (h : g.Ends P F) (hk : ∀ a, P a → (k a).Ends Q F) : (g >>= k).Ends Q F := by
  refine ends_of_run fun s => ?_
  rcases h.ok_or_error s with ⟨a, s', hrun, ha⟩ | ⟨f, s', hrun, hf⟩
  · rw [run_bind_ok hrun]
    exact (hk a ha).ok_or_error s'
  · exact .inr ⟨f, s', run_bind_error hrun, hf⟩

theorem Ends.map {f : α → β} (h : g.Ends P F) (hf : ∀ a, P a → Q (f a)) : (f <$> g).Ends Q F := by
  rw [map_eq_pure_bind]
  exact h.bind fun a ha => ends_pure (hf a ha)

/-- One generator for each item of a list. -/
theorem ends_mapM {f : α → Gen σ β} {xs : List α} (h : ∀ x ∈ xs, (f x).Ends Q F) :
    (xs.mapM f).Ends (fun ys => ys.length = xs.length ∧ ∀ y ∈ ys, Q y) F := by
  induction xs with
  | nil => exact ends_pure ⟨rfl, List.forall_mem_nil _⟩
  | cons x xs ih =>
    obtain ⟨hx, hxs⟩ := List.forall_mem_cons.1 h
    rw [List.mapM_cons]
    refine hx.bind fun y hy => (ih hxs).bind fun ys hys => ends_pure ⟨?_, ?_⟩
    · rw [List.length_cons, List.length_cons, hys.1]
    · exact List.forall_mem_cons.2 ⟨hy, hys.2⟩

/-! ## 3. Draws -/

theorem ends_unit {R : Source σ} {P : Float → Prop} (h : ∀ s, P (R.unit s).1) :
    (unit R).Ends P F := h

theorem ends_below (R : Source σ) {n : Nat} (h : 0 < n) :
    (below R n h).Ends (fun _ => True) F := fun _ => trivial

theorem ends_pick (R : Source σ) {xs : List α} (h : xs ≠ []) :
    (pick R xs h).Ends (fun x => x ∈ xs) F :=
  (ends_below R _).bind fun i _ => ends_pure (List.getElem_mem i.isLt)

theorem ends_coin (R : Source σ) : (coin R).Ends (fun _ => True) F :=
  Ends.bind (ends_unit (P := fun _ => True) fun _ => trivial) fun _ _ => ends_pure trivial

end Credal.Gen
