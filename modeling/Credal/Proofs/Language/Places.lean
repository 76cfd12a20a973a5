import Credal.Language.Variables
import Mathlib.Data.List.Basic

/-!
# Places in a node

A place in a node is an address: the positions of the children on the way down from the node. A part
that occurs several times has several places, and the order of the addresses is the one in which a
node is read: a part before what it is made of, what is on the left before what is on the right.

* `Node.children`, `Node.part?`, `partOf?`: the immediate parts, the part at an address of a node
  and of a list of nodes;
* `Node.places`, `placesOf`: all parts with their addresses; `mem_places_iff` and `pairwise_places`
  say that each place is listed once and in order;
* `Node.Everywhere`: what all parts of a node have; `iff_everywhere` for what a recursion says;
* `Node.flatMap_places`: what a recursion collects from a node it collects from the places, as
  `reals_eq_flatMap_places` and `letters_eq_flatMap_places` do.
-/

namespace Credal

/-! ## 1. Addresses -/

namespace Node

/-- The immediate parts of a node from left to right. -/
def children : Node → List Node
  | .real (.literal _) | .real (.var _) | .real (.stateSum _) | .real (.probability _)
  | .real (.given _ _) => []
  | .real (.negative e) => [.real e]
  | .real (.arith _ a b) | .real (.divide a b) | .real (.power a b)
  | .constraint (.compare _ a b) => [.real a, .real b]
  | .constraint (.negation c) => [.constraint c]
  | .constraint (.binary _ c d) => [.constraint c, .constraint d]

/-- The part of a node at an address, if it has one there. -/
def part? (n : Node) : List Nat → Option Node
  | [] => some n
  | i :: p => n.children[i]?.bind fun m => m.part? p

end Node

/-- The part at an address of a list of nodes; the address begins with the position of a node. -/
def partOf? (ns : List Node) : List Nat → Option Node
  | [] => none
  | i :: p => ns[i]?.bind fun n => n.part? p

/-- The place of a part at an address of the `i`-th child. -/
def below (i : Nat) (places : List (List Nat × Node)) : List (List Nat × Node) :=
  places.map fun place => (i :: place.1, place.2)

/-- The places in an expression, the expression itself first. -/
def RealExpr.places (e : RealExpr) : List (List Nat × Node) :=
  ([], .real e) :: match e with
    | .literal _ | .var _ | .stateSum _ | .probability _ | .given _ _ => []
    | .negative a => below 0 a.places
    | .arith _ a b | .divide a b | .power a b => below 0 a.places ++ below 1 b.places

/-- The places in a constraint, the constraint itself first. -/
def Constraint.places (c : Constraint) : List (List Nat × Node) :=
  ([], .constraint c) :: match c with
    | .compare _ a b => below 0 a.places ++ below 1 b.places
    | .negation d => below 0 d.places
    | .binary _ d d' => below 0 d.places ++ below 1 d'.places

/-- The places in a node, the node itself first. -/
def Node.places : Node → List (List Nat × Node)
  | .constraint c => c.places
  | .real e => e.places

/-- The places in a list of nodes. -/
def placesOf (ns : List Node) : List (List Nat × Node) :=
  ns.zipIdx.flatMap fun (n, i) => below i n.places

namespace Node

/-- The places in a node are the node and the places in its children. -/
theorem places_eq (n : Node) : n.places = ([], n) :: placesOf n.children := by
  cases n with
  | real e => cases e <;> simp [places, RealExpr.places, placesOf, children]
  | constraint c => cases c <;> simp [places, Constraint.places, placesOf, children]

theorem mem_below_iff {i : Nat} {places : List (List Nat × Node)} {q : List Nat} {s : Node} :
    (q, s) ∈ below i places ↔ ∃ p, q = i :: p ∧ (p, s) ∈ places := by
  unfold below
  rw [List.mem_map]
  constructor
  · intro h
    obtain ⟨⟨p, m⟩, hmem, heq⟩ := h
    cases heq
    exact ⟨p, rfl, hmem⟩
  · intro h
    obtain ⟨p, rfl, hmem⟩ := h
    exact ⟨(p, s), hmem, rfl⟩

theorem mem_placesOf_cons_iff {ns : List Node} {i : Nat} {p : List Nat} {s : Node} :
    (i :: p, s) ∈ placesOf ns ↔ ∃ n, ns[i]? = some n ∧ (p, s) ∈ n.places := by
  unfold placesOf
  rw [List.mem_flatMap]
  constructor
  · intro h
    obtain ⟨⟨n, j⟩, hn, hmem⟩ := h
    obtain ⟨q, hq, hmem⟩ := mem_below_iff.1 hmem
    cases hq
    exact ⟨n, List.mem_zipIdx_iff_getElem?.1 hn, hmem⟩
  · intro h
    obtain ⟨n, hn, hmem⟩ := h
    exact ⟨(n, i), List.mem_zipIdx_iff_getElem?.2 hn, mem_below_iff.2 ⟨p, rfl, hmem⟩⟩

theorem nil_notMem_placesOf {ns : List Node} {s : Node} : ([], s) ∉ placesOf ns := by
  intro h
  obtain ⟨x, -, hmem⟩ := List.mem_flatMap.1 h
  obtain ⟨p, hp, -⟩ := mem_below_iff.1 hmem
  exact nomatch hp

/-- **Each part of a node is listed with its address.** -/
theorem mem_places_iff {n s : Node} {p : List Nat} : (p, s) ∈ n.places ↔ n.part? p = some s := by
  induction p generalizing n with
  | nil =>
    rw [places_eq, List.mem_cons, or_iff_left nil_notMem_placesOf, Prod.mk.injEq, part?,
      Option.some.injEq]
    exact ⟨fun h => h.2.symm, fun h => ⟨rfl, h.symm⟩⟩
  | cons i p ih =>
    have hhead : (i :: p, s) ≠ ([], n) := nofun
    rw [places_eq, List.mem_cons, or_iff_right hhead, mem_placesOf_cons_iff, part?,
      Option.bind_eq_some_iff]
    exact exists_congr fun m => and_congr_right fun _ => ih

/-- **Induction on the immediate parts** of a node, of either kind. -/
theorem induction_on_children {P : Node → Prop} (h : ∀ n, (∀ m ∈ n.children, P m) → P n)
    (n : Node) : P n := by
  have hreal : ∀ e : RealExpr, P (.real e) := by
    intro e
    have hpair : ∀ {a b : RealExpr}, P (.real a) → P (.real b) → ∀ m ∈ [.real a, .real b], P m :=
      fun ha hb => List.forall_mem_cons.2 ⟨ha, List.forall_mem_singleton.2 hb⟩
    induction e with
    | literal x => exact h _ fun _ hm => nomatch hm
    | var name => exact h _ fun _ hm => nomatch hm
    | stateSum is => exact h _ fun _ hm => nomatch hm
    | probability S => exact h _ fun _ hm => nomatch hm
    | given S T => exact h _ fun _ hm => nomatch hm
    | negative e ih => exact h _ (List.forall_mem_singleton.2 ih)
    | arith op a b iha ihb => exact h _ (hpair iha ihb)
    | divide a b iha ihb => exact h _ (hpair iha ihb)
    | power a b iha ihb => exact h _ (hpair iha ihb)
  cases n with
  | real e => exact hreal e
  | constraint c =>
    induction c with
    | compare r a b =>
      exact h _ (List.forall_mem_cons.2 ⟨hreal a, List.forall_mem_singleton.2 (hreal b)⟩)
    | negation c ih => exact h _ (List.forall_mem_singleton.2 ih)
    | binary k c d ihc ihd =>
      exact h _ (List.forall_mem_cons.2 ⟨ihc, List.forall_mem_singleton.2 ihd⟩)

end Node

/-- The address of a part begins with the position of the node that it is in. -/
theorem pairwise_placesOf {ns : List Node}
    (h : ∀ n ∈ ns, n.places.Pairwise fun x y => x.1 < y.1) :
    (placesOf ns).Pairwise fun x y => x.1 < y.1 := by
  have hpositions : ns.zipIdx.Pairwise fun x y => x.2 < y.2 := by
    rw [← List.pairwise_map (f := Prod.snd), List.zipIdx_map_snd]
    exact List.pairwise_lt_range'
  refine List.pairwise_flatMap.2 ⟨fun x hx => ?_, hpositions.imp fun hlt x hx y hy => ?_⟩
  · have hmem : x.1 ∈ ns := List.mem_of_getElem? (List.mem_zipIdx_iff_getElem?.1 hx)
    refine List.pairwise_map.2 ((h x.1 hmem).imp fun hlt => ?_)
    exact List.cons_lt_cons_iff.2 (Or.inr ⟨rfl, hlt⟩)
  · obtain ⟨p, hp, -⟩ := Node.mem_below_iff.1 hx
    obtain ⟨q, hq, -⟩ := Node.mem_below_iff.1 hy
    rw [hp, hq]
    exact List.cons_lt_cons_iff.2 (Or.inl hlt)

namespace Node

/-- **The places are in order**, so none is listed twice. -/
theorem pairwise_places (n : Node) : n.places.Pairwise fun x y => x.1 < y.1 := by
  induction n using induction_on_children with
  | h n ih =>
    rw [places_eq]
    refine List.pairwise_cons.2 ⟨fun place hplace => ?_, pairwise_placesOf ih⟩
    obtain ⟨p, s⟩ := place
    cases p with
    | nil => exact absurd hplace nil_notMem_placesOf
    | cons i p => exact List.nil_lt_cons i p

end Node

theorem mem_placesOf_iff {ns : List Node} {p : List Nat} {s : Node} :
    (p, s) ∈ placesOf ns ↔ partOf? ns p = some s := by
  cases p with
  | nil => exact iff_of_false Node.nil_notMem_placesOf nofun
  | cons i p =>
    rw [Node.mem_placesOf_cons_iff, partOf?, Option.bind_eq_some_iff]
    exact exists_congr fun n => and_congr_right fun _ => Node.mem_places_iff

/-! ## 2. Parts of parts -/

namespace Node

/-- The address of a part of a part. -/
theorem part?_append (n : Node) (p q : List Nat) :
    n.part? (p ++ q) = (n.part? p).bind (·.part? q) := by
  induction p generalizing n with
  | nil => rfl
  | cons i p ih =>
    rw [List.cons_append, part?, part?, Option.bind_assoc]
    exact congrArg _ (funext ih)

theorem part?_cons_eq_some_iff {n s : Node} {i : Nat} {p : List Nat} :
    n.part? (i :: p) = some s ↔ ∃ m, n.children[i]? = some m ∧ m.part? p = some s :=
  Option.bind_eq_some_iff

/-- All parts of a node have a property. -/
def Everywhere (Q : Node → Prop) (n : Node) : Prop := ∀ p s, n.part? p = some s → Q s

variable {Q : Node → Prop} {n s : Node}

/-- **All parts** are the node and the parts of its children. -/
theorem everywhere_iff : n.Everywhere Q ↔ Q n ∧ ∀ m ∈ n.children, m.Everywhere Q := by
  constructor
  · intro h
    refine ⟨h [] n rfl, fun m hm p s hs => ?_⟩
    obtain ⟨i, hi⟩ := List.getElem?_of_mem hm
    exact h (i :: p) s (part?_cons_eq_some_iff.2 ⟨m, hi, hs⟩)
  · intro h p s hs
    cases p with
    | nil =>
      cases hs
      exact h.1
    | cons i p =>
      obtain ⟨m, hm, hs⟩ := part?_cons_eq_some_iff.1 hs
      exact h.2 m (List.mem_of_getElem? hm) p s hs

/-- **What a recursion says of a node**, something of the node itself and the same of its children,
    it says of all parts. -/
theorem iff_everywhere {P own : Node → Prop} (h : ∀ n, P n ↔ own n ∧ ∀ m ∈ n.children, P m)
    (n : Node) : P n ↔ n.Everywhere own := by
  induction n using induction_on_children with
  | h n ih =>
    rw [everywhere_iff, h]
    exact and_congr_right fun _ => forall₂_congr ih

theorem everywhere_leaf (h : n.children = []) : n.Everywhere Q ↔ Q n := by
  rw [everywhere_iff, h]
  exact and_iff_left (List.forall_mem_nil _)

theorem everywhere_single {m : Node} (h : n.children = [m]) :
    n.Everywhere Q ↔ Q n ∧ m.Everywhere Q := by
  rw [everywhere_iff, h, List.forall_mem_singleton]

theorem everywhere_pair {m m' : Node} (h : n.children = [m, m']) :
    n.Everywhere Q ↔ Q n ∧ m.Everywhere Q ∧ m'.Everywhere Q := by
  rw [everywhere_iff, h, List.forall_mem_cons, List.forall_mem_singleton]

theorem Everywhere.part (h : n.Everywhere Q) {p : List Nat} (hs : n.part? p = some s) :
    s.Everywhere Q := by
  intro q m hm
  refine h (p ++ q) m ?_
  rw [part?_append, hs]
  exact hm

/-! ## 3. Collections -/

/-- What is collected from the places in a list of nodes is collected node by node. -/
theorem flatMap_placesOf {β : Type} (own : Node → List β) (ns : List Node) :
    (placesOf ns).flatMap (fun place => own place.2) =
      ns.flatMap fun n => n.places.flatMap fun place => own place.2 := by
  have hbelow : ∀ i places, (below i places).flatMap (fun place => own place.2) =
      places.flatMap fun place => own place.2 := fun i places => List.flatMap_map ..
  rw [placesOf, List.flatMap_assoc]
  simp only [hbelow]
  rw [← List.flatMap_map (f := Prod.fst)
    (g := fun n : Node => n.places.flatMap fun place => own place.2), List.zipIdx_map_fst]

/-- **What a recursion collects**, from each node some items of its own and then those of its
    children, are the own items of the parts in the order of their places. -/
theorem flatMap_places {β : Type} {collect : Node → List β} (own : Node → List β)
    (h : ∀ n, collect n = own n ++ n.children.flatMap collect) (n : Node) :
    collect n = n.places.flatMap fun place => own place.2 := by
  induction n using induction_on_children with
  | h n ih =>
    rw [h n, places_eq, List.flatMap_cons, flatMap_placesOf]
    exact congrArg _ (List.flatMap_congr ih)

/-- The real variable that a node is. -/
def ownReals : Node → List String
  | .real (.var name) => [name]
  | _ => []

/-- The letters of the sentences of a node that is a probability. -/
def ownLetters : Node → List Letter
  | .real (.probability S) => S.letters
  | .real (.given S T) => S.letters ++ T.letters
  | _ => []

/-- The real variables of a node are met in the order of their places. -/
theorem reals_eq_flatMap_places (n : Node) :
    n.reals = n.places.flatMap fun place => place.2.ownReals := by
  refine flatMap_places ownReals (fun n => ?_) n
  cases n with
  | real e => cases e <;> simp [reals, RealExpr.reals, ownReals, children]
  | constraint c => cases c <;> simp [reals, Constraint.reals, ownReals, children]

/-- The letters of a node are met in the order of the places of its probabilities. -/
theorem letters_eq_flatMap_places (n : Node) :
    n.letters = n.places.flatMap fun place => place.2.ownLetters := by
  refine flatMap_places ownLetters (fun n => ?_) n
  cases n with
  | real e => cases e <;> simp [letters, RealExpr.letters, ownLetters, children]
  | constraint c => cases c <;> simp [letters, Constraint.letters, ownLetters, children]

/-- An item is collected if it is an own item of some part. -/
theorem mem_flatMap_places_iff {β : Type} (own : Node → List β) {b : β} :
    b ∈ (n.places.flatMap fun place => own place.2) ↔ ∃ p s, n.part? p = some s ∧ b ∈ own s := by
  rw [List.mem_flatMap]
  constructor
  · intro h
    obtain ⟨⟨p, s⟩, hs, hb⟩ := h
    exact ⟨p, s, mem_places_iff.1 hs, hb⟩
  · intro h
    obtain ⟨p, s, hs, hb⟩ := h
    exact ⟨(p, s), mem_places_iff.2 hs, hb⟩

/-- What is collected from a part is collected from the node. -/
theorem flatMap_places_subset_of_part {β : Type} (own : Node → List β) {p : List Nat}
    (hs : n.part? p = some s) :
    (s.places.flatMap fun place => own place.2) ⊆ n.places.flatMap fun place => own place.2 := by
  intro b hb
  obtain ⟨q, m, hm, hown⟩ := (mem_flatMap_places_iff own).1 hb
  refine (mem_flatMap_places_iff own).2 ⟨p ++ q, m, ?_, hown⟩
  rw [part?_append, hs]
  exact hm

/-- Where a part has an own item only if it is the node that the item makes. -/
theorem mem_flatMap_places_iff_of_own {β : Type} {own : Node → List β} {make : β → Node}
    (h : ∀ s b, b ∈ own s ↔ s = make b) {b : β} :
    b ∈ (n.places.flatMap fun place => own place.2) ↔ ∃ p, n.part? p = some (make b) := by
  rw [mem_flatMap_places_iff own]
  refine exists_congr fun p => ⟨fun hown => ?_, fun hp => ⟨_, hp, (h _ b).2 rfl⟩⟩
  obtain ⟨s, hs, hb⟩ := hown
  rw [hs, (h s b).1 hb]

theorem mem_ownReals_iff (s : Node) (name : String) :
    name ∈ s.ownReals ↔ s = .real (.var name) := by
  unfold ownReals
  split
  · simp only [List.mem_singleton, real.injEq, RealExpr.var.injEq, eq_comm]
  · rename_i hother
    exact iff_of_false List.not_mem_nil fun h => hother name h

/-- **A real variable of a node stands at some place in it.** -/
theorem mem_reals_iff {name : String} :
    name ∈ n.reals ↔ ∃ p, n.part? p = some (.real (.var name)) := by
  rw [reals_eq_flatMap_places]
  exact mem_flatMap_places_iff_of_own mem_ownReals_iff

/-- **A letter of a node stands in a probability at some place in it.** -/
theorem mem_letters_iff {l : Letter} :
    l ∈ n.letters ↔ ∃ p s, n.part? p = some s ∧ l ∈ s.ownLetters := by
  rw [letters_eq_flatMap_places, mem_flatMap_places_iff]

end Node

end Credal
