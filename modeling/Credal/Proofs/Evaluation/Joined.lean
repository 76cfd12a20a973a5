import Credal.Evaluation.Outcome

/-!
# Failures of many outcomes

When outcomes are combined by an operation that does not fail itself, what is left of their failures
depends on the failures and their order alone. A division by zero hides all else; otherwise the
undeclared variables of all outcomes are listed in order, each once. How the outcomes are grouped
makes no difference.

* `eraseDups_append_eraseDups`: repetitions erased from two lists and then from both together;
* `Failure.joined`, `joined_append`: what is left of a list of failures, and of two lists;
* `Outcome.failure?_combineValues`: what an operation leaves of two failures;
* `Grouping`, `failure?_fold`: outcomes combined two at a time, in any grouping;
* `failures_join_in_order`: outcomes combined from the left, compared with every other grouping.
-/

namespace Credal

/-! ## 1. Repetitions -/

section

variable {α : Type} [DecidableEq α] {xs : List α}

theorem eraseDups_of_nodup (h : xs.Nodup) : xs.eraseDups = xs := by
  induction xs with
  | nil => rfl
  | cons x xs ih =>
    obtain ⟨hx, hxs⟩ := List.nodup_cons.1 h
    have hfilter : (xs.filter fun b => !b == x) = xs := by
      refine List.filter_eq_self.2 fun b hb => ?_
      have hne : b ≠ x := fun e => hx (e ▸ hb)
      simp [hne]
    rw [List.eraseDups_cons, hfilter, ih hxs]

theorem eraseDups_eraseDups (xs : List α) : xs.eraseDups.eraseDups = xs.eraseDups :=
  eraseDups_of_nodup (distinct_eq_eraseDups xs ▸ distinct_nodup xs)

/-- What is removed may be removed before or after repetitions. -/
theorem eraseDups_removeAll (xs ys : List α) :
    (ys.eraseDups.removeAll xs.eraseDups).eraseDups = (ys.removeAll xs).eraseDups := by
  have hmem : ys.eraseDups.removeAll xs.eraseDups = ys.eraseDups.removeAll xs := by
    refine List.filter_congr fun b _ => ?_
    rw [List.elem_eq_mem, List.elem_eq_mem, decide_eq_decide.2 List.mem_eraseDups]
  rw [hmem, List.removeAll, List.removeAll, ← distinct_eq_eraseDups ys, filter_distinct,
    distinct_eq_eraseDups, eraseDups_eraseDups]

/-- **Repetitions may be erased from two lists before they are joined.** -/
theorem eraseDups_append_eraseDups (xs ys : List α) :
    (xs.eraseDups ++ ys.eraseDups).eraseDups = (xs ++ ys).eraseDups := by
  rw [List.eraseDups_append, List.eraseDups_append, eraseDups_eraseDups, eraseDups_removeAll]

end

/-! ## 2. Failures -/

namespace Failure

/-- The undeclared real variables of a failure. -/
def reals : Failure → List String
  | .undeclared v => v.reals
  | .divisionByZero => []

/-- The undeclared letters of a failure. -/
def letters : Failure → List Letter
  | .undeclared v => v.letters
  | .divisionByZero => []

/-- No variable is listed twice. -/
def RepeatsNothing (f : Failure) : Prop := f.reals.Nodup ∧ f.letters.Nodup

/-- What is left of a list of failures: a division by zero if there is one, otherwise the undeclared
    variables of all of them in order, each once. -/
def joined (fs : List Failure) : Option Failure :=
  if fs = [] then none
  else if .divisionByZero ∈ fs then some .divisionByZero
  else some (.undeclared ⟨(fs.flatMap reals).eraseDups, (fs.flatMap letters).eraseDups⟩)

theorem joined_of_divisionByZero {fs : List Failure} (h : .divisionByZero ∈ fs) :
    joined fs = some .divisionByZero := by
  rw [joined, if_neg (List.ne_nil_of_mem h), if_pos h]

theorem joined_of_undeclared {fs : List Failure} {v : Variables} (h : .divisionByZero ∉ fs)
    (hv : .undeclared v ∈ fs) : joined fs =
      some (.undeclared ⟨(fs.flatMap reals).eraseDups, (fs.flatMap letters).eraseDups⟩) := by
  rw [joined, if_neg (List.ne_nil_of_mem hv), if_neg h]

theorem joined_singleton {f : Failure} (h : f.RepeatsNothing) : joined [f] = some f := by
  cases f with
  | undeclared v =>
    have hreals : v.reals.eraseDups = v.reals := eraseDups_of_nodup h.1
    have hletters : v.letters.eraseDups = v.letters := eraseDups_of_nodup h.2
    rw [joined, if_neg (List.cons_ne_nil _ _), if_neg (by simp), List.flatMap_singleton,
      List.flatMap_singleton, reals, letters, hreals, hletters]
  | divisionByZero => rfl

theorem merge_eq (v w : Variables) : v.merge w =
    ⟨(v.reals ++ w.reals).eraseDups, (v.letters ++ w.letters).eraseDups⟩ := by
  rw [Variables.merge, distinct_eq_eraseDups, distinct_eq_eraseDups]

/-- **What is left of two lists of failures** is what is left of what each of them leaves. -/
theorem joined_append (fs gs : List Failure) :
    joined (fs ++ gs) = Option.merge Outcome.joinFailures (joined fs) (joined gs) := by
  by_cases hfs : fs = []
  · subst hfs
    rw [List.nil_append, show joined [] = none from rfl, Option.merge_none_left]
  by_cases hgs : gs = []
  · subst hgs
    rw [List.append_nil, show joined [] = none from rfl, Option.merge_none_right]
  have hne : fs ++ gs ≠ [] := fun h => hfs (List.append_eq_nil_iff.1 h).1
  rw [joined, joined, joined, if_neg hfs, if_neg hgs, if_neg hne]
  by_cases hf : .divisionByZero ∈ fs
  · rw [if_pos hf, if_pos (List.mem_append_left _ hf)]
    split
    · rfl
    · rfl
  by_cases hg : .divisionByZero ∈ gs
  · rw [if_neg hf, if_pos hg, if_pos (List.mem_append_right _ hg)]
    rfl
  · have hfg : .divisionByZero ∉ fs ++ gs := fun h => (List.mem_append.1 h).elim hf hg
    rw [if_neg hf, if_neg hg, if_neg hfg, Option.merge_some_some, Outcome.joinFailures, merge_eq,
      eraseDups_append_eraseDups, eraseDups_append_eraseDups, List.flatMap_append,
      List.flatMap_append]

end Failure

/-! ## 3. Groupings -/

/-- A way to combine the items of a list two at a time. -/
inductive Grouping (α : Type) where
  | single (a : α)
  | pair (left right : Grouping α)

namespace Grouping

variable {α : Type}

/-- The items from left to right. -/
def items : Grouping α → List α
  | .single a => [a]
  | .pair l r => l.items ++ r.items

/-- The items combined by an operation. -/
def fold (op : α → α → α) : Grouping α → α
  | .single a => a
  | .pair l r => op (l.fold op) (r.fold op)

/-- The grouping from the left: each item is combined with all before it. -/
def fromLeft (t : Grouping α) (as : List α) : Grouping α :=
  as.foldl (fun t a => .pair t (.single a)) t

theorem items_fromLeft (t : Grouping α) (as : List α) : (t.fromLeft as).items = t.items ++ as := by
  induction as generalizing t with
  | nil => exact (List.append_nil _).symm
  | cons a as ih =>
    show ((Grouping.pair t (.single a)).fromLeft as).items = _
    rw [ih, items, items, List.append_assoc, List.singleton_append]

theorem fold_fromLeft (op : α → α → α) (t : Grouping α) (as : List α) :
    (t.fromLeft as).fold op = as.foldl op (t.fold op) := by
  induction as generalizing t with
  | nil => rfl
  | cons a as ih => exact ih (.pair t (.single a))

end Grouping

/-! ## 4. Outcomes -/

namespace Outcome

variable {α : Type}

/-- The failure of an outcome. -/
def failure? : Outcome α → Option Failure
  | .ok _ => none
  | .error f => some f

/-- The failures of some outcomes in order. -/
def failures (os : List (Outcome α)) : List Failure := os.filterMap failure?

theorem failure?_eq_some_iff {o : Outcome α} {f : Failure} :
    failure? o = some f ↔ o = .error f := by
  cases o with
  | ok a => exact iff_of_false nofun nofun
  | error e => rw [failure?, Option.some.injEq, Except.error.injEq]

theorem mem_failures_iff {os : List (Outcome α)} {f : Failure} :
    f ∈ failures os ↔ .error f ∈ os := by
  rw [failures, List.mem_filterMap]
  simp only [failure?_eq_some_iff, exists_eq_right]

theorem failures_append (os ps : List (Outcome α)) :
    failures (os ++ ps) = failures os ++ failures ps := List.filterMap_append

/-- Outcomes without failures are values. -/
theorem exists_values {os : List (Outcome α)} (h : failures os = []) :
    ∃ as : List α, os = as.map .ok := by
  induction os with
  | nil => exact ⟨[], rfl⟩
  | cons o os ih =>
    cases o with
    | ok a =>
      obtain ⟨as, rfl⟩ := ih h
      exact ⟨a :: as, rfl⟩
    | error f => cases h

variable (g : α → α → α)

/-- Two outcomes combined by an operation that always succeeds. -/
def combineValues : Outcome α → Outcome α → Outcome α := combine fun a b => .ok (g a b)

/-- **An operation leaves of two failures what is left of them joined.** -/
theorem failure?_combineValues (o p : Outcome α) :
    failure? (combineValues g o p) = Option.merge joinFailures (failure? o) (failure? p) := by
  cases o with
  | ok a =>
    cases p with
    | ok b => rfl
    | error e => rfl
  | error e =>
    cases p with
    | ok b => rfl
    | error e' => rfl

/-- **However outcomes are grouped**, the failure is what is left of all failures in order. -/
theorem failure?_fold {t : Grouping (Outcome α)} (h : ∀ f ∈ failures t.items, f.RepeatsNothing) :
    failure? (t.fold (combineValues g)) = Failure.joined (failures t.items) := by
  induction t with
  | single o =>
    cases o with
    | ok a => rfl
    | error f => exact (Failure.joined_singleton (h f List.mem_cons_self)).symm
  | pair l r ihl ihr =>
    rw [Grouping.items, failures_append] at h ⊢
    obtain ⟨hl, hr⟩ := List.forall_mem_append.1 h
    rw [Grouping.fold, failure?_combineValues, ihl hl, ihr hr, Failure.joined_append]

/-- **The failure of the fold from the left**, which is one of the groupings. -/
theorem failure?_foldl {o : Outcome α} {os : List (Outcome α)}
    (h : ∀ f ∈ failures (o :: os), f.RepeatsNothing) :
    failure? (os.foldl (combineValues g) o) = Failure.joined (failures (o :: os)) := by
  have hitems : ((Grouping.single o).fromLeft os).items = o :: os :=
    Grouping.items_fromLeft (.single o) os
  have hfold := failure?_fold g (t := (Grouping.single o).fromLeft os) (hitems.symm ▸ h)
  rwa [hitems, Grouping.fold_fromLeft] at hfold

/-- Values are combined by the operation. -/
theorem foldl_values (a : α) (as : List α) :
    (as.map .ok).foldl (combineValues g) (.ok a) = .ok (as.foldl g a) := by
  induction as generalizing a with
  | nil => rfl
  | cons b as ih => exact ih (g a b)

/-- **Failures are joined in order, however the outcomes are grouped.** Outcomes that are combined
    from the left by an operation that always succeeds give a division by zero if there is one among
    them; otherwise all their undeclared variables in order, each once, if there are any; otherwise
    the value of the operation on their values. Any other grouping gives the same failure, or none
    as well. -/
theorem failures_join_in_order (o : Outcome α) (os : List (Outcome α))
    (h : ∀ f ∈ failures (o :: os), f.RepeatsNothing) :
    (.error .divisionByZero ∈ o :: os →
      os.foldl (combineValues g) o = .error .divisionByZero) ∧
    (.error .divisionByZero ∉ o :: os → (∃ v, .error (.undeclared v) ∈ o :: os) →
      os.foldl (combineValues g) o = .error (.undeclared
        ⟨((failures (o :: os)).flatMap Failure.reals).eraseDups,
          ((failures (o :: os)).flatMap Failure.letters).eraseDups⟩)) ∧
    (.error .divisionByZero ∉ o :: os → (¬ ∃ v, .error (.undeclared v) ∈ o :: os) →
      ∃ (a : α) (as : List α), o = .ok a ∧ os = as.map .ok ∧
        os.foldl (combineValues g) o = .ok (as.foldl g a)) ∧
    ∀ t : Grouping (Outcome α), t.items = o :: os →
      failure? (t.fold (combineValues g)) = failure? (os.foldl (combineValues g) o) := by
  have hfold := failure?_foldl g h
  refine ⟨fun hzero => ?_, fun hzero hv => ?_, fun hzero hv => ?_, fun t ht => ?_⟩
  · rw [Failure.joined_of_divisionByZero (mem_failures_iff.2 hzero)] at hfold
    exact failure?_eq_some_iff.1 hfold
  · obtain ⟨v, hv⟩ := hv
    have hnot : Failure.divisionByZero ∉ failures (o :: os) := fun h => hzero (mem_failures_iff.1 h)
    rw [Failure.joined_of_undeclared hnot (mem_failures_iff.2 hv)] at hfold
    exact failure?_eq_some_iff.1 hfold
  · have hnone : failures (o :: os) = [] := by
      refine List.eq_nil_iff_forall_not_mem.2 fun f hf => ?_
      cases f with
      | undeclared v => exact hv ⟨v, mem_failures_iff.1 hf⟩
      | divisionByZero => exact hzero (mem_failures_iff.1 hf)
    obtain ⟨as, has⟩ := exists_values hnone
    cases as with
    | nil => cases has
    | cons a as =>
      obtain ⟨rfl, rfl⟩ := List.cons.inj has
      exact ⟨a, as, rfl, rfl, foldl_values g a as⟩
  · rw [hfold, failure?_fold g (ht ▸ h), ht]

/-- Two failures between values, the second of which repeats a name of the first. -/
theorem failures_join_in_order_of_repeated_name :
    let x : Outcome Nat := .error (.undeclared ⟨["x"], [⟨"A", 0⟩]⟩)
    let y : Outcome Nat := .error (.undeclared ⟨["y", "x"], [⟨"A", 1⟩, ⟨"A", 0⟩]⟩)
    let all : Failure := .undeclared ⟨["x", "y"], [⟨"A", 0⟩, ⟨"A", 1⟩]⟩
    (∀ f ∈ failures [.ok 1, x, .ok 2, y], f.RepeatsNothing) ∧
    [x, .ok 2, y].foldl (combineValues (· + ·)) (.ok 1) = .error all ∧
    failure? ((Grouping.pair (.single (.ok 1)) (.pair (.single x) (.pair (.single (.ok 2))
      (.single y)))).fold (combineValues (· + ·))) = some all := by
  intro x y all
  have h : ∀ f ∈ failures [.ok 1, x, .ok 2, y], f.RepeatsNothing := by
    refine List.forall_mem_cons.2 ⟨?_, List.forall_mem_singleton.2 ?_⟩
    · exact ⟨by decide, by decide⟩
    · exact ⟨by decide, by decide⟩
  obtain ⟨-, hundeclared, -, hgrouping⟩ := failures_join_in_order (· + ·) (.ok 1) [x, .ok 2, y] h
  have hfold := hundeclared (by simp [x, y]) ⟨_, List.mem_cons_of_mem _ List.mem_cons_self⟩
  refine ⟨h, hfold.trans rfl, (hgrouping _ rfl).trans ?_⟩
  rw [hfold]
  rfl

end Outcome

end Credal
