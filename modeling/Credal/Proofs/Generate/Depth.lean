import Credal.Generate.Shape
import Credal.Proofs.Generate.Endings
import Mathlib

/-!
# The depth of grown trees

A tree that is grown to some depth has exactly that depth, whatever is drawn: the child that is
meant to be the deepest has the depth below it, and the depths that are drawn for the others are no
larger. Where no function may be used the tree is a single terminal.

* `Growth`, `Growth.Builds`: how a tree is made of shapes, with its height, and such trees;
* `Shapes.Filled`: the children built so far, and `Shapes.ends_children`: all children;
* `Shapes.ends_grow`: what holds of grown trees, by induction on the depth;
* `trees_have_exact_depth`: which tables can be grown over, and to which depth.
-/

namespace Credal

variable {σ τ : Type}

/-! ## 1. How a tree is made -/

/-- How a tree is made: each node is a shape that may be used, with as many trees below it as the
    shape has children. -/
inductive Growth (used : List (Shape σ τ)) where
  | node (s : Shape σ τ) (h : s ∈ used) (kids : Fin s.arity.toNat → Growth used)

namespace Growth

variable {used : List (Shape σ τ)}

/-- The number of steps down to the deepest node. -/
def height : Growth used → Nat
  | .node _ _ kids => Finset.univ.sup fun i => (kids i).height + 1

/-- A tree may be built like this. -/
def Builds : Growth used → τ → Prop
  | .node s _ kids, t => ∃ vs : Vector τ s.arity.toNat,
      (∀ i : Fin s.arity.toNat, (kids i).Builds vs[i]) ∧
        ∃ st st', (s.build vs).run st = (.ok t, st')

theorem height_of_terminal {s : Shape σ τ} {h : s ∈ used} {kids : Fin s.arity.toNat → Growth used}
    (harity : s.arity = 0) : (node s h kids).height = 0 := by
  rw [height, ← Nat.le_zero, Finset.sup_le_iff]
  intro i
  have hi := i.isLt
  omega

theorem height_of_function {s : Shape σ τ} {h : s ∈ used} {kids : Fin s.arity.toNat → Growth used}
    {d : Nat} (hle : ∀ i, (kids i).height ≤ d) (hdeepest : ∃ i, (kids i).height = d) :
    (node s h kids).height = d + 1 := by
  rw [height]
  refine le_antisymm (Finset.sup_le fun i _ => Nat.succ_le_succ (hle i)) ?_
  obtain ⟨i, rfl⟩ := hdeepest
  exact Finset.le_sup (f := fun i => (kids i).height + 1) (Finset.mem_univ i)

end Growth

/-! ## 2. Growing -/

namespace Shapes

variable {R : Source σ} {S : Shapes σ τ} {d deepest : Nat}
variable {Q : Nat → τ → Prop} {F : GenFault → Prop}

/-- The children up to here have depths up to `d`, and the deepest one has depth `d`. -/
def Filled (Q : Nat → τ → Prop) (d deepest : Nat) {n : Nat} (acc : Vector τ n) : Prop :=
  ∀ i (h : i < n), ∃ k ≤ d, (i = deepest → k = d) ∧ Q k acc[i]

theorem filled_empty : Filled Q d deepest (#v[] : Vector τ 0) :=
  fun i h => absurd h (Nat.not_lt_zero i)

theorem Filled.push {n k : Nat} {acc : Vector τ n} {t : τ} (h : Filled Q d deepest acc)
    (hk : k ≤ d) (hdeepest : n = deepest → k = d) (ht : Q k t) :
    Filled Q d deepest (acc.push t) := by
  intro i hi
  rcases (Nat.lt_succ_iff.1 hi).lt_or_eq with hlt | rfl
  · rw [Vector.getElem_push_lt hlt]
    exact h i hlt
  · rw [Vector.getElem_push_eq]
    exact ⟨k, hk, hdeepest, ht⟩

theorem Filled.cast {n m : Nat} {acc : Vector τ n} (h : Filled Q d deepest acc) (hnm : n = m) :
    Filled Q d deepest (acc.cast hnm) := by
  subst hnm
  exact h

/-- **The children that are missing are built** in their order, each to a depth that may be. -/
theorem ends_children {grow : (k : Nat) → k < d + 1 → Gen σ τ}
    (hgrow : ∀ k h, (grow k h).Ends (Q k) F) (missing : Nat) {done : Nat} {acc : Vector τ done}
    (hacc : Filled Q d deepest acc) :
    (children R d grow deepest missing done acc).Ends (Filled Q d deepest) F := by
  induction missing generalizing done with
  | zero => exact Gen.ends_pure hacc
  | succ missing ih =>
    -- the child of a depth that may be, and those after it
    have hrest : ∀ k : Fin (d + 1), (done = deepest → k = Fin.last d) →
        Gen.Ends (Filled Q d deepest) F (do
          let child ← grow k.val k.isLt
          let all ← children R d grow deepest missing (done + 1) (acc.push child)
          pure (all.cast (by omega : done + 1 + missing = done + (missing + 1)))) := by
      intro k hk
      refine (hgrow k.val k.isLt).bind fun child hchild => ?_
      have hpush : Filled Q d deepest (acc.push child) :=
        hacc.push (Nat.lt_succ_iff.1 k.isLt) (fun h => congrArg Fin.val (hk h)) hchild
      exact (ih hpush).bind fun all hall => Gen.ends_pure (hall.cast _)
    rw [children]
    split
    · exact (Gen.ends_pure rfl).bind fun k hk => hrest k fun _ => hk.symm
    · rename_i hother
      exact (Gen.ends_below R _).bind fun k _ => hrest k fun h => absurd h hother

/-- The depth that a tree can be grown to: none without functions. -/
def reach (S : Shapes σ τ) (depth : Nat) : Nat := if S.functions = [] then 0 else depth

/-- A terminal is built without children. -/
theorem ends_terminal (hterminal : ∀ s ∈ S.terminals, ∀ vs, (s.build vs).Ends (Q 0) F) :
    (S.terminal R).Ends (Q 0) F :=
  (Gen.ends_below R _).bind fun i _ => hterminal _ (List.getElem_mem i.isLt) _

/-- **What holds of grown trees**: `Q` of the depth and the tree, if every terminal has it and every
    function hands it on from its children, of which one has the full depth. -/
theorem ends_grow (hterminal : ∀ s ∈ S.terminals, ∀ vs, (s.build vs).Ends (Q 0) F)
    (hfunction : ∀ s ∈ S.functions, ∀ d (vs : Vector τ s.arity.toNat),
      (∀ i : Fin s.arity.toNat, ∃ k ≤ d, Q k vs[i]) → (∃ i : Fin s.arity.toNat, Q d vs[i]) →
      (s.build vs).Ends (Q (d + 1)) F) (depth : Nat) :
    (S.grow R depth).Ends (Q (S.reach depth)) F := by
  by_cases hnone : S.functions = []
  · rw [reach, if_pos hnone]
    have hgrow : S.grow R depth = S.terminal R := by
      cases depth with
      | zero => rw [grow]
      | succ d => rw [grow, dif_pos hnone]
    rw [hgrow]
    exact ends_terminal hterminal
  · rw [reach, if_neg hnone]
    induction depth using Nat.strong_induction_on with
    | h depth ih =>
      cases depth with
      | zero =>
        rw [grow]
        exact ends_terminal hterminal
      | succ d =>
        rw [grow, dif_neg hnone]
        refine (Gen.ends_below R _).bind fun i _ => (Gen.ends_below R _).bind fun deepest _ => ?_
        refine (ends_children (fun k hk => ih k hk) _ filled_empty).bind fun all hall => ?_
        refine hfunction _ (List.getElem_mem i.isLt) d _ (fun j => ?_) ⟨deepest, ?_⟩
        · obtain ⟨k, hk, -, hQ⟩ := hall.cast (Nat.zero_add _) j.val j.isLt
          exact ⟨k, hk, hQ⟩
        · obtain ⟨k, -, hk, hQ⟩ := hall.cast (Nat.zero_add _) deepest.val deepest.isLt
          obtain rfl := hk rfl
          exact hQ

end Shapes

/-! ## 3. Tables -/

variable {R : Source σ} {shapes : List (Shape σ τ)} {sel : Selection} {S : Shapes σ τ}

/-- The shapes of a table that may be used. -/
def usable (shapes : List (Shape σ τ)) (sel : Selection) : List (Shape σ τ) :=
  shapes.filter fun s => sel.allows s.name

/-- Some node of a shape may not be built, with the given fault. -/
def Shape.MayFail (s : Shape σ τ) (f : GenFault) : Prop :=
  ∃ vs st st', (s.build vs).run st = (.error f, st')

theorem shapesOf_error_iff :
    (∃ f, shapesOf shapes sel = .error f) ↔ ∀ s ∈ usable shapes sel, s.arity ≠ 0 := by
  have hterminals : (usable shapes sel).filter (·.arity = 0) = [] ↔
      ∀ s ∈ usable shapes sel, s.arity ≠ 0 := by simp
  rw [← hterminals]
  unfold shapesOf
  simp only
  split
  · rename_i h
    exact iff_of_true ⟨_, rfl⟩ h
  · rename_i h
    exact iff_of_false nofun h

/-- The shapes that may be used are sorted by whether they have children. -/
theorem of_shapesOf (h : shapesOf shapes sel = .ok S) :
    S.terminals = (usable shapes sel).filter (·.arity = 0) ∧
      S.functions = (usable shapes sel).filter (0 < ·.arity) := by
  unfold shapesOf at h
  simp only at h
  split at h
  · exact nomatch h
  · obtain rfl := Except.ok.inj h
    exact ⟨rfl, rfl⟩

theorem Shapes.reach_eq (h : shapesOf shapes sel = .ok S) (depth : Nat) :
    S.reach depth = if ∃ s ∈ usable shapes sel, 0 < s.arity then depth else 0 := by
  have hnone : S.functions = [] ↔ ¬ ∃ s ∈ usable shapes sel, 0 < s.arity := by
    rw [(of_shapesOf h).2]
    simp
  rw [reach, if_congr hnone rfl rfl, ite_not]

/-- **A grown tree is made of shapes that may be used**, to the depth that it can be grown to. -/
theorem Shapes.ends_grow_growth (h : shapesOf shapes sel = .ok S) (depth : Nat) :
    (S.grow R depth).Ends
      (fun t => ∃ g : Growth (usable shapes sel), g.Builds t ∧ g.height = S.reach depth)
      fun f => ∃ s ∈ usable shapes sel, s.MayFail f := by
  obtain ⟨hterminals, hfunctions⟩ := of_shapesOf h
  -- a node is built from what its children are built from, or it cannot be built
  have hnode : ∀ s (hs : s ∈ usable shapes sel) (vs : Vector τ s.arity.toNat)
      (kids : Fin s.arity.toNat → Growth (usable shapes sel)), (∀ i, (kids i).Builds vs[i]) →
      (s.build vs).Ends (Growth.node s hs kids).Builds
        fun f => ∃ s ∈ usable shapes sel, s.MayFail f := by
    intro s hs vs kids hkids
    refine Gen.ends_of_run fun st => ?_
    rcases hrun : (s.build vs).run st with ⟨f | t, st'⟩
    · exact .inr ⟨f, st', rfl, s, hs, vs, st, st', hrun⟩
    · exact .inl ⟨t, st', rfl, vs, hkids, st, st', hrun⟩
  refine ends_grow (Q := fun d t => ∃ g : Growth (usable shapes sel), g.Builds t ∧ g.height = d)
    (fun s hs vs => ?_) (fun s hs d vs hkids hdeepest => ?_) depth
  · rw [hterminals, List.mem_filter, decide_eq_true_eq] at hs
    obtain ⟨hs, harity⟩ := hs
    have hnone : ∀ i : Fin s.arity.toNat, False := fun i => by
      have hi := i.isLt
      omega
    refine (hnode s hs vs (fun i => (hnone i).elim) fun i => (hnone i).elim).mono fun t ht => ?_
    exact ⟨_, ht, Growth.height_of_terminal harity⟩
  · rw [hfunctions, List.mem_filter, decide_eq_true_eq] at hs
    obtain ⟨hs, -⟩ := hs
    obtain ⟨deepest, gd, hgd, hheight⟩ := hdeepest
    choose k hk g hg using hkids
    refine (hnode s hs vs (Function.update g deepest gd) fun i => ?_).mono fun t ht => ?_
    · by_cases hi : i = deepest
      · subst hi
        rw [Function.update_self]
        exact hgd
      · rw [Function.update_of_ne hi]
        exact (hg i).1
    · refine ⟨_, ht, Growth.height_of_function (fun i => ?_) ⟨deepest, ?_⟩⟩
      · by_cases hi : i = deepest
        · subst hi
          rw [Function.update_self, hheight]
        · rw [Function.update_of_ne hi, (hg i).2]
          exact hk i
      · rw [Function.update_self, hheight]

/-- **Trees have exactly the depth asked for.** A table can be grown over unless no terminal may be
    used; a negative depth is refused; and otherwise, from every state of every source, growing ends
    with a tree, unless a shape of the table cannot be built. Each node of the tree is a shape that
    may be used with exactly its number of children. The height is the depth, or zero where no
    function may be used. -/
theorem trees_have_exact_depth (R : Source σ) (shapes : List (Shape σ τ)) (sel : Selection) :
    ((∃ f, shapesOf shapes sel = .error f) ↔ ∀ s ∈ usable shapes sel, s.arity ≠ 0) ∧
    ∀ S, shapesOf shapes sel = .ok S → ∀ (depth : Int) (st : σ),
      (depth < 0 → (S.growTo R depth).run st = (.error (.negativeDepth depth), st)) ∧
      (0 ≤ depth →
        (∃ t st', (S.growTo R depth).run st = (.ok t, st') ∧
          ∃ g : Growth (usable shapes sel), g.Builds t ∧
            g.height = if ∃ s ∈ usable shapes sel, 0 < s.arity then depth.toNat else 0) ∨
        ∃ f st', (S.growTo R depth).run st = (.error f, st') ∧
          ∃ s ∈ usable shapes sel, s.MayFail f) := by
  refine ⟨shapesOf_error_iff, fun S hS depth st => ⟨fun hneg => ?_, fun hdepth => ?_⟩⟩
  · rw [Shapes.growTo, if_pos hneg]
    rfl
  · rw [Shapes.growTo, if_neg (not_lt.2 hdepth), ← Shapes.reach_eq hS]
    exact (Shapes.ends_grow_growth hS depth.toNat).ok_or_error st

/-- A table of three shapes, where the one with one child is excluded. -/
theorem trees_have_exact_depth_of_pairs :
    let leaf : Shape UInt64 Nat := ⟨"leaf", 0, fun _ => pure 0⟩
    let one : Shape UInt64 Nat := ⟨"one", 1, fun kids => pure (kids.foldl (· + ·) 1)⟩
    let two : Shape UInt64 Nat := ⟨"two", 2, fun kids => pure (kids.foldl (· + ·) 1)⟩
    ∃ S, shapesOf [leaf, one, two] ⟨none, ["one"]⟩ = .ok S ∧
      (S.growTo congruential (-1)).run 7 = (.error (.negativeDepth (-1)), 7) ∧
      ∃ t st', (S.growTo congruential 4).run 7 = (.ok t, st') ∧
        ∃ g : Growth [leaf, two], g.Builds t ∧ g.height = 4 := by
  intro leaf one two
  obtain ⟨S, hS⟩ : ∃ S, shapesOf [leaf, one, two] ⟨none, ["one"]⟩ = .ok S := ⟨_, rfl⟩
  have hdepth := (trees_have_exact_depth congruential [leaf, one, two] ⟨none, ["one"]⟩).2 S hS
  refine ⟨S, hS, (hdepth (-1) 7).1 (by decide), ?_⟩
  have hused : usable [leaf, one, two] ⟨none, ["one"]⟩ = [leaf, two] := rfl
  rcases (hdepth 4 7).2 (by decide) with h | ⟨f, -, -, s, hs, vs, st, st', hrun⟩
  · exact h
  · rw [hused] at hs
    rcases List.mem_pair.1 hs with rfl | rfl <;> exact nomatch hrun

end Credal
