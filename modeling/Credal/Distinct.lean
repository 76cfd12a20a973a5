/-!
# Order of first encounter

Names are collected in the order in which they are met, each once.

* `insertNew`: an item put at the end of a list unless the list has it;
* `distinct`: the items of a list, each where it comes first;
* `distinct_nodup`, `mem_distinct`: it repeats nothing and loses nothing;
* `distinct_eq_eraseDups`: it is what the library leaves when it erases later repetitions;
* `filter_distinct`: the items with a property.
-/

namespace Credal

variable {α : Type} [DecidableEq α]

/-- The list with an item at its end, unless it has the item. -/
def insertNew (xs : List α) (a : α) : List α := if a ∈ xs then xs else xs ++ [a]

/-- The items of a list, each once, in the order in which they come first. -/
def distinct (xs : List α) : List α := xs.foldl insertNew []

theorem mem_insertNew {xs : List α} {a b : α} : b ∈ insertNew xs a ↔ b ∈ xs ∨ b = a := by
  unfold insertNew
  split
  · rename_i h
    exact ⟨Or.inl, fun h' => h'.elim id fun e => e ▸ h⟩
  · simp

theorem insertNew_nodup {xs : List α} (h : xs.Nodup) (a : α) : (insertNew xs a).Nodup := by
  unfold insertNew
  split
  · exact h
  · rename_i ha
    rw [List.nodup_append]
    refine ⟨h, by simp, fun b hb c hc => ?_⟩
    rw [List.mem_singleton.1 hc]
    exact fun e => ha (e ▸ hb)

theorem foldl_insertNew_nodup (xs : List α) {acc : List α} (h : acc.Nodup) :
    (xs.foldl insertNew acc).Nodup := by
  induction xs generalizing acc with
  | nil => exact h
  | cons x xs ih => exact ih (insertNew_nodup h x)

theorem mem_foldl_insertNew {xs acc : List α} {b : α} :
    b ∈ xs.foldl insertNew acc ↔ b ∈ acc ∨ b ∈ xs := by
  induction xs generalizing acc with
  | nil => simp
  | cons x xs ih => rw [List.foldl_cons, ih, mem_insertNew, List.mem_cons, or_assoc]

theorem distinct_nodup (xs : List α) : (distinct xs).Nodup :=
  foldl_insertNew_nodup xs List.nodup_nil

theorem mem_distinct {xs : List α} {b : α} : b ∈ distinct xs ↔ b ∈ xs := by
  unfold distinct
  rw [mem_foldl_insertNew]
  simp

/-- What comes after some items: the new ones, each where it comes first. -/
theorem foldl_insertNew_eq (xs acc : List α) :
    xs.foldl insertNew acc = acc ++ (xs.filter (· ∉ acc)).eraseDups := by
  induction xs generalizing acc with
  | nil => simp
  | cons x xs ih =>
    rw [List.foldl_cons, ih, insertNew]
    by_cases h : x ∈ acc
    · rw [if_pos h, List.filter_cons_of_neg (by simpa using h)]
    · have hfilter : xs.filter (· ∉ acc ++ [x]) =
          (xs.filter (· ∉ acc)).filter fun b => !b == x := by
        rw [List.filter_filter]
        refine List.filter_congr fun b _ => ?_
        by_cases hb : b = x <;> simp [hb]
      rw [if_neg h, List.filter_cons_of_pos (by simpa using h), List.eraseDups_cons, hfilter,
        List.append_assoc, List.singleton_append]

theorem distinct_eq_eraseDups (xs : List α) : distinct xs = xs.eraseDups := by
  rw [distinct, foldl_insertNew_eq, List.nil_append, List.filter_eq_self.2 (by simp)]

theorem filter_insertNew (p : α → Bool) (xs : List α) (a : α) :
    (insertNew xs a).filter p = if p a then insertNew (xs.filter p) a else xs.filter p := by
  unfold insertNew
  by_cases hp : p a = true <;> by_cases ha : a ∈ xs <;> simp [hp, ha]

theorem filter_foldl_insertNew (p : α → Bool) (xs acc : List α) :
    (xs.foldl insertNew acc).filter p = (xs.filter p).foldl insertNew (acc.filter p) := by
  induction xs generalizing acc with
  | nil => rfl
  | cons x xs ih =>
    rw [List.foldl_cons, ih, filter_insertNew, List.filter_cons]
    split
    · rw [List.foldl_cons]
    · rfl

/-- Items are left out before or after their repetitions. -/
theorem filter_distinct (p : α → Bool) (xs : List α) :
    (distinct xs).filter p = distinct (xs.filter p) :=
  filter_foldl_insertNew p xs []

end Credal
