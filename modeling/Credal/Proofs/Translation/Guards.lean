import Credal.Proofs.Language.Places
import Credal.Translation.Axioms

/-!
# Division guards

Every division whose denominator could be zero is guarded, and nothing else is. A guard is itself a
constraint with a denominator in it; the divisions in there are parts of the guarded division, so
their guards are in the list already.

* `RealExpr.needsGuard_iff`: what is not guarded;
* `Node.divisor?`, `Node.guards_eq_flatMap_places`: the guards in the order of places, and
  `Node.mem_guards_iff`: each guard belongs to a division;
* `Node.guards_subset_of_part`, `Node.guards_guard`: the guards of a part, and those of a guard;
* `divisorsOf`: the guarded denominators with the addresses of their divisions;
* `guards_complete_and_closed`: all of them together.
-/

namespace Credal

/-! ## 1. The guards of a node -/

/-- **A guard is left out only if the denominator is a literal other than zero.** -/
theorem RealExpr.needsGuard_iff {b : RealExpr} :
    b.needsGuard = true ↔ ∀ x, b = .literal x → (x == 0) = true := by
  cases b with
  | literal x =>
    constructor
    · intro h y hy
      cases hy
      exact h
    · intro h
      exact h x rfl
  | _ => exact iff_of_true rfl nofun

namespace Node

/-- The denominator of a division that needs a guard. -/
def divisor? : Node → Option RealExpr
  | .real (.divide _ b) => if b.needsGuard then some b else none
  | _ => none

variable {n s : Node} {b : RealExpr} {g : Constraint}

theorem divisor?_eq_some_iff :
    n.divisor? = some b ↔ (∃ a, n = .real (.divide a b)) ∧ b.needsGuard = true := by
  unfold divisor?
  split
  · rename_i a b'
    constructor
    · intro h
      obtain ⟨hguard, hb⟩ := Option.ite_none_right_eq_some.1 h
      cases hb
      exact ⟨⟨a, rfl⟩, hguard⟩
    · intro h
      obtain ⟨⟨a, ha⟩, hguard⟩ := h
      cases ha
      exact if_pos hguard
  · rename_i hother
    refine iff_of_false nofun fun h => ?_
    obtain ⟨⟨a, ha⟩, -⟩ := h
    exact hother a b ha

/-- **The guards of a node** are those of its divisions, in the order of their places. -/
theorem guards_eq_flatMap_places (n : Node) :
    n.guards = n.places.flatMap fun place => (place.2.divisor?.map (·.guard)).toList := by
  refine flatMap_places (fun s => (s.divisor?.map (·.guard)).toList) (fun n => ?_) n
  cases n with
  | real e =>
    cases e with
    | divide a b =>
      by_cases h : b.needsGuard = true <;> simp [guards, RealExpr.guards, divisor?, children, h]
    | _ => simp [guards, RealExpr.guards, divisor?, children]
  | constraint c => cases c <;> simp [guards, Constraint.guards, divisor?, children]

/-- **Each guard belongs to a division**, and each division that needs one has its guard. -/
theorem mem_guards_iff :
    g ∈ n.guards ↔ ∃ p a b, n.part? p = some (.real (.divide a b)) ∧ b.needsGuard = true ∧
      b.guard = g := by
  rw [guards_eq_flatMap_places,
    mem_flatMap_places_iff fun s => (s.divisor?.map (·.guard)).toList]
  constructor
  · intro h
    obtain ⟨p, s, hs, hown⟩ := h
    obtain ⟨b, hb, hg⟩ := Option.map_eq_some_iff.1 (Option.mem_toList.1 hown)
    obtain ⟨⟨a, ha⟩, hguard⟩ := divisor?_eq_some_iff.1 hb
    rw [ha] at hs
    exact ⟨p, a, b, hs, hguard, hg⟩
  · intro h
    obtain ⟨p, a, b, hs, hguard, hg⟩ := h
    have hb : (Node.real (.divide a b)).divisor? = some b :=
      divisor?_eq_some_iff.2 ⟨⟨a, rfl⟩, hguard⟩
    exact ⟨p, _, hs, Option.mem_toList.2 (Option.map_eq_some_iff.2 ⟨b, hb, hg⟩)⟩

/-- The guards of a part are guards of the node. -/
theorem guards_subset_of_part {p : List Nat} (hs : n.part? p = some s) : s.guards ⊆ n.guards := by
  rw [guards_eq_flatMap_places s, guards_eq_flatMap_places n]
  exact flatMap_places_subset_of_part (fun s => (s.divisor?.map (·.guard)).toList) hs

/-- The denominator of a division is a part of it. -/
theorem part?_denominator {p : List Nat} {a b : RealExpr}
    (h : n.part? p = some (.real (.divide a b))) : n.part? (p ++ [1]) = some (.real b) := by
  rw [part?_append, h]
  rfl

/-- A guard has the guards of its denominator. -/
theorem guards_guard (b : RealExpr) : (Node.constraint b.guard).guards = (Node.real b).guards :=
  List.append_nil _

/-- **The guards of a guard of a node are guards of the node.** -/
theorem guards_subset_of_mem_guards (hg : g ∈ n.guards) :
    (Node.constraint g).guards ⊆ n.guards := by
  obtain ⟨p, a, b, hp, -, rfl⟩ := mem_guards_iff.1 hg
  rw [guards_guard]
  exact guards_subset_of_part (part?_denominator hp)

end Node

/-! ## 2. The guards of a list of nodes -/

/-- The denominators in a list of nodes that need guards, with the addresses of their divisions. -/
def divisorsOf (ns : List Node) : List (List Nat × RealExpr) :=
  (placesOf ns).filterMap fun place => place.2.divisor?.map (place.1, ·)

variable {ns : List Node}

theorem divisionGuards_eq_map_divisorsOf (ns : List Node) :
    divisionGuards ns = (divisorsOf ns).map fun d => d.2.guard := by
  have hguard : ∀ place : List Nat × Node,
      (place.2.divisor?.map (place.1, ·)).map (fun d => d.2.guard) =
        place.2.divisor?.map (·.guard) := fun place => Option.map_map ..
  unfold divisionGuards divisorsOf
  rw [List.map_filterMap]
  simp only [hguard]
  rw [List.filterMap_eq_flatMap_toList,
    Node.flatMap_placesOf fun s => (s.divisor?.map (·.guard)).toList]
  exact List.flatMap_congr fun n _ => n.guards_eq_flatMap_places

theorem mem_divisorsOf_iff {p : List Nat} {b : RealExpr} :
    (p, b) ∈ divisorsOf ns ↔
      (∃ a, partOf? ns p = some (.real (.divide a b))) ∧ b.needsGuard = true := by
  unfold divisorsOf
  rw [List.mem_filterMap]
  constructor
  · intro h
    obtain ⟨⟨q, s⟩, hs, hb⟩ := h
    obtain ⟨b', hb', heq⟩ := Option.map_eq_some_iff.1 hb
    cases heq
    obtain ⟨⟨a, rfl⟩, hguard⟩ := Node.divisor?_eq_some_iff.1 hb'
    exact ⟨⟨a, mem_placesOf_iff.1 hs⟩, hguard⟩
  · intro h
    obtain ⟨⟨a, ha⟩, hguard⟩ := h
    have hb : (Node.real (.divide a b)).divisor? = some b :=
      Node.divisor?_eq_some_iff.2 ⟨⟨a, rfl⟩, hguard⟩
    exact ⟨(p, .real (.divide a b)), mem_placesOf_iff.2 ha, Option.map_eq_some_iff.2 ⟨b, hb, rfl⟩⟩

theorem pairwise_divisorsOf (ns : List Node) :
    (divisorsOf ns).Pairwise fun d d' => d.1 < d'.1 := by
  refine (pairwise_placesOf fun n _ => n.pairwise_places).filterMap _ ?_
  intro x y hlt d hd d' hd'
  obtain ⟨b, -, rfl⟩ := Option.map_eq_some_iff.1 hd
  obtain ⟨b', -, rfl⟩ := Option.map_eq_some_iff.1 hd'
  exact hlt

/-- The guards of the guards are among the guards. -/
theorem divisionGuards_divisionGuards_subset (ns : List Node) :
    divisionGuards ((divisionGuards ns).map .constraint) ⊆ divisionGuards ns := by
  intro g hg
  unfold divisionGuards at hg ⊢
  rw [List.flatMap_map] at hg
  obtain ⟨outer, houter, hg⟩ := List.mem_flatMap.1 hg
  obtain ⟨n, hn, houter⟩ := List.mem_flatMap.1 houter
  exact List.mem_flatMap.2 ⟨n, hn, Node.guards_subset_of_mem_guards houter hg⟩

/-- **The guards are complete, exact and closed.** There is one for each place of a division whose
    denominator is not a literal other than zero, in the order of the addresses: depth first, from
    left to right, that of a division before those of its parts. The guards of guards are among
    them, so that the denominator in a guard holds no division without a guard. -/
theorem guards_complete_and_closed (ns : List Node) :
    (∃ divisors : List (List Nat × RealExpr),
      divisionGuards ns =
        divisors.map (fun d => .negation (.compare .equal d.2 (.literal 0))) ∧
      divisors.Pairwise (fun d d' => d.1 < d'.1) ∧
      ∀ p b, (p, b) ∈ divisors ↔
        (∃ a, partOf? ns p = some (.real (.divide a b))) ∧
          ∀ x, b = .literal x → (x == 0) = true) ∧
    divisionGuards ((divisionGuards ns).map .constraint) ⊆ divisionGuards ns ∧
    ∀ b : RealExpr, .negation (.compare .equal b (.literal 0)) ∈ divisionGuards ns →
      ∀ p c d, (Node.real b).part? p = some (.real (.divide c d)) →
        (∀ x, d = .literal x → (x == 0) = true) →
        .negation (.compare .equal d (.literal 0)) ∈ divisionGuards ns := by
  refine ⟨⟨divisorsOf ns, divisionGuards_eq_map_divisorsOf ns, pairwise_divisorsOf ns,
    fun p b => ?_⟩, divisionGuards_divisionGuards_subset ns, fun b hb p c d hd hguard => ?_⟩
  · rw [mem_divisorsOf_iff, RealExpr.needsGuard_iff]
  · have hmem : d.guard ∈ (Node.real b).guards :=
      Node.mem_guards_iff.2 ⟨p, c, d, hd, RealExpr.needsGuard_iff.2 hguard, rfl⟩
    rw [← Node.guards_guard] at hmem
    exact divisionGuards_divisionGuards_subset ns
      (List.mem_flatMap.2 ⟨.constraint b.guard, List.mem_map_of_mem hb, hmem⟩)

/-- The guard of a quotient by a quotient by zero comes before the guard of the zero, which is among
    the guards of the first. -/
theorem guards_complete_and_closed_of_nested :
    let b : RealExpr := .divide (.var "x") (.literal 0)
    let ns : List Node := [.real (.var "x"), .real (.divide (.divide b (.literal 2)) b)]
    divisionGuards ns = [b.guard, (RealExpr.literal 0).guard, (RealExpr.literal 0).guard] ∧
      (RealExpr.literal 0).guard ∈ divisionGuards ns := by
  intro b ns
  obtain ⟨-, -, hclosed⟩ := guards_complete_and_closed ns
  have hb : b.guard ∈ divisionGuards ns := by decide +kernel
  have hzero : ∀ x, RealExpr.literal 0 = .literal x → (x == 0) = true := by
    intro x hx
    cases hx
    decide +kernel
  exact ⟨by decide +kernel, hclosed b hb [] (.var "x") (.literal 0) rfl hzero⟩

end Credal
