import Credal.Generate.Random

/-!
# Random trees of exact depth

A tree is grown over shapes: a shape without children is a terminal, one with children a function,
and one with a negative number of children is never used. At depth zero, or where there are no
functions, a terminal is built. Else a function is picked and one of its children grows to the full
depth, so that the tree has exactly the depth asked for; the other children grow to depths drawn
below it.

* `Shape`: a shape of nodes;
* `Shapes`: the shapes that may be used, with a terminal among them;
* `Shapes.grow`: a tree of a given depth;
* `Selection`: which shapes may be used;
* `shapesOf`, `growFrom`: the same, with the faults that may come before it.
-/

namespace Credal

/-- A shape of nodes: its name, how many children it has, and how a node is built from them. -/
structure Shape (σ τ : Type) where
  name : String
  arity : Int
  build : Vector τ arity.toNat → Gen σ τ

/-- Shapes with at least one terminal. -/
structure Shapes (σ τ : Type) where
  terminals : List (Shape σ τ)
  functions : List (Shape σ τ)
  terminals_ne_nil : terminals ≠ []
  arity_terminals : ∀ s ∈ terminals, s.arity = 0
  arity_functions : ∀ s ∈ functions, 0 < s.arity

namespace Shapes

variable {σ τ : Type}

/-- A node without children. -/
def terminal (R : Source σ) (S : Shapes σ τ) : Gen σ τ := do
  let i ← Gen.below R S.terminals.length (List.length_pos_iff.2 S.terminals_ne_nil)
  let s := S.terminals[i]
  have h : s.arity = 0 := S.arity_terminals s (List.getElem_mem i.isLt)
  s.build ((#v[] : Vector τ 0).cast (by rw [h]; rfl))

/-- The children from `done` on. The one at place `deepest` has depth `d`, the others a depth drawn
    up to `d`. -/
def children (R : Source σ) (d : Nat) (grow : (k : Nat) → k < d + 1 → Gen σ τ) (deepest : Nat) :
    (missing done : Nat) → Vector τ done → Gen σ (Vector τ (done + missing))
  | 0, _, acc => pure acc
  | missing + 1, done, acc => do
    let k : Fin (d + 1) ←
      if done = deepest then pure (Fin.last d) else Gen.below R (d + 1) (Nat.succ_pos d)
    let child ← grow k.val k.isLt
    let all ← children R d grow deepest missing (done + 1) (acc.push child)
    pure (all.cast (by omega))

/-- A tree of the given depth. -/
def grow (R : Source σ) (S : Shapes σ τ) (depth : Nat) : Gen σ τ :=
  match depth with
  | 0 => S.terminal R
  | d + 1 =>
    if h : S.functions = [] then S.terminal R
    else do
      let i ← Gen.below R S.functions.length (List.length_pos_iff.2 h)
      let s := S.functions[i]
      have harity : 0 < s.arity := S.arity_functions s (List.getElem_mem i.isLt)
      let deepest ← Gen.below R s.arity.toNat (Int.lt_toNat.2 harity)
      let cs ← children R d (fun k _ => grow R S k) deepest.val s.arity.toNat 0 #v[]
      s.build (cs.cast (Nat.zero_add _))
  termination_by depth

end Shapes

/-- Which shapes may be used, by name: those included, if any are named, and not excluded. -/
structure Selection where
  included : Option (List String) := none
  excluded : List String := []
  deriving DecidableEq, Repr

/-- Whether a shape may be used. -/
def Selection.allows (s : Selection) (name : String) : Bool :=
  (match s.included with
    | some names => names.contains name
    | none => true) && !s.excluded.contains name

/-- The shapes of a list that may be used. -/
def shapesOf {σ τ : Type} (shapes : List (Shape σ τ)) (sel : Selection) :
    Except GenFault (Shapes σ τ) :=
  let allowed := shapes.filter fun s => sel.allows s.name
  let terminals := allowed.filter (·.arity = 0)
  let functions := allowed.filter (0 < ·.arity)
  if h : terminals = [] then .error (.noTerminals (shapes.map (·.name)))
  else
    .ok { terminals, functions
          terminals_ne_nil := h
          arity_terminals := fun _ hs => by simpa using (List.mem_filter.1 hs).2
          arity_functions := fun _ hs => by simpa using (List.mem_filter.1 hs).2 }

/-- A tree of the given depth, which may not be negative. -/
def Shapes.growTo {σ τ : Type} (R : Source σ) (S : Shapes σ τ) (depth : Int) : Gen σ τ :=
  if depth < 0 then throw (.negativeDepth depth) else S.grow R depth.toNat

/-- A tree of the given depth over the shapes of a list that may be used. -/
def growFrom {σ τ : Type} (R : Source σ) (shapes : List (Shape σ τ)) (sel : Selection)
    (depth : Int) : Gen σ τ := do
  match shapesOf shapes sel with
  | .ok S => S.growTo R depth
  | .error fault => throw fault

end Credal
