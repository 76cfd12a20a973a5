import Credal.Language.Sentence

/-!
# Truth of a sentence

A valuation says which letters are true. A sentence is evaluated by recursion on it, or by a
machine with a stack that does not recurse, so that sentences of any depth can be evaluated. The
machine works on nodes in memory: it knows a node by its address, and the truth value that it finds
for a node is stored under that address. A node that is a part of several others is one node, and
its value is stored again each time the machine comes to it.

* `Sentence.holds`: by recursion;
* `Sentence.Memory`, `Memory.ofSentence`: nodes in memory, and a sentence laid out there;
* `Sentence.Entry`, `Memory.pop?`: what stands on the stack, and what becomes of one entry;
* `Entry.weight`, `load_lt_of_pop?`: the stack gets lighter with each entry, so every run ends;
* `Memory.runFrom?`, `Memory.run?`: the run of the machine, counting the entries that it takes off;
* `Sentence.holdsByStack?`: the machine started on a sentence.
-/

namespace Credal

/-- Which letters are true. -/
abbrev Valuation := Letter → Bool

namespace Sentence

/-- The truth value of a sentence. -/
def holds (v : Valuation) : Sentence → Bool
  | .value b => b
  | .letter l => v l
  | .negation s => !s.holds v
  | .binary k s t => k.holds (s.holds v) (t.holds v)

/-- The number of truth values and letters in a sentence, each occurrence counted. -/
def leafCount : Sentence → Nat
  | .value _ => 1
  | .letter _ => 1
  | .negation s => s.leafCount
  | .binary _ s t => s.leafCount + t.leafCount

/-- The number of negations and connectives in a sentence, each occurrence counted. -/
def signCount : Sentence → Nat
  | .value _ => 0
  | .letter _ => 0
  | .negation s => s.signCount + 1
  | .binary _ s t => s.signCount + t.signCount + 1

/-- The parts of a sentence, from left to right. -/
def parts : Sentence → List Sentence
  | .value _ => []
  | .letter _ => []
  | .negation s => [s]
  | .binary _ s t => [s, t]

/-! ## 1. Sentences in memory -/

/-- A node in memory. A compound knows its parts by their addresses. -/
inductive Cell where
  | value (b : Bool)
  | letter (l : Letter)
  | negation (part : Nat)
  | binary (k : Connective) (left right : Nat)
  deriving DecidableEq, Repr

/-- The addresses of the parts of a node. -/
def Cell.parts : Cell → List Nat
  | .value _ => []
  | .letter _ => []
  | .negation part => [part]
  | .binary _ left right => [left, right]

/-- Nodes by their addresses. Parts stand behind what they are parts of, so no node is a part of
    itself, however indirectly. -/
structure Memory where
  cells : Array Cell
  parts_behind : ∀ (a : Nat) (h : a < cells.size), ∀ part ∈ cells[a].parts, a < part

/-- The node of a sentence whose parts are at the given address and the next one. -/
def cell (next : Nat) : Sentence → Cell
  | .value b => .value b
  | .letter l => .letter l
  | .negation _ => .negation next
  | .binary k _ _ => .binary k next (next + 1)

theorem le_of_mem_parts_cell {next part : Nat} {s : Sentence} (h : part ∈ (s.cell next).parts) :
    next ≤ part := by
  cases s with
  | value b => cases h
  | letter l => cases h
  | negation s => exact Nat.le_of_eq (List.mem_singleton.1 h).symm
  | binary k s t =>
    simp only [cell, Cell.parts, List.mem_cons, List.not_mem_nil, or_false] at h
    omega

namespace Memory

/-- The number of nodes. -/
abbrev size (m : Memory) : Nat := m.cells.size

theorem lt_of_mem_parts {m : Memory} {a part : Nat} {c : Cell} (h : m.cells[a]? = some c)
    (hpart : part ∈ c.parts) : a < part := by
  obtain ⟨ha, rfl⟩ := Array.getElem?_eq_some_iff.1 h
  exact m.parts_behind a ha part hpart

/-- The memory without nodes. -/
def empty : Memory where
  cells := #[]
  parts_behind a h := absurd h (Nat.not_lt_zero a)

/-- The memory with a node behind those that it has. -/
def push (m : Memory) (c : Cell) (hc : ∀ part ∈ c.parts, m.size < part) : Memory where
  cells := m.cells.push c
  parts_behind a h := by
    rw [Array.getElem_push]
    split
    · rename_i ha
      exact m.parts_behind a ha
    · rename_i ha
      rw [Array.size_push] at h
      intro part hpart
      exact Nat.lt_of_le_of_lt (Nat.le_of_lt_succ h) (hc part hpart)

/-- The number of nodes for a queue of sentences. -/
def nodeCount : List Sentence → Nat
  | [] => 0
  | s :: rest => s.leafCount + s.signCount + nodeCount rest

theorem nodeCount_append (queue later : List Sentence) :
    nodeCount (queue ++ later) = nodeCount queue + nodeCount later := by
  induction queue with
  | nil => exact (Nat.zero_add _).symm
  | cons s queue ih =>
    rw [List.cons_append, nodeCount, nodeCount, ih]
    exact (Nat.add_assoc _ _ _).symm

theorem nodeCount_parts_lt (s : Sentence) : nodeCount s.parts < s.leafCount + s.signCount := by
  cases s with
  | value b => exact Nat.one_pos
  | letter l => exact Nat.one_pos
  | negation s => exact Nat.lt_succ_self _
  | binary k s t =>
    simp only [parts, nodeCount, leafCount, signCount]
    omega

/-- The memory with a node for a sentence whose parts come behind `waiting` other nodes. -/
def pushSentence (m : Memory) (s : Sentence) (waiting : Nat) : Memory :=
  m.push (s.cell (m.size + 1 + waiting)) fun part hpart => by
    have hnext := le_of_mem_parts_cell hpart
    omega

/-- The memory with the nodes of a queue of sentences behind those that it has. The parts of a
    sentence join the end of the queue, so their addresses are known when its node is laid out. -/
def layOut (m : Memory) : List Sentence → Memory
  | [] => m
  | s :: rest => layOut (m.pushSentence s rest.length) (rest ++ s.parts)
  termination_by queue => nodeCount queue
  decreasing_by
    rw [nodeCount_append, nodeCount]
    have hparts := nodeCount_parts_lt s
    omega

/-- A sentence in memory, at address 0, and all its parts at addresses of their own. -/
def ofSentence (s : Sentence) : Memory := layOut empty [s]

end Memory

/-! ## 2. The machine -/

/-- An entry of the stack: the address of a node, and whether its parts have been evaluated. -/
structure Entry where
  address : Nat
  partsDone : Bool
  deriving DecidableEq, Repr

/-- The weight of an entry in a memory of `n` cells. It is above what the entries weigh together
    that are put onto the stack in its place, the parts of a node being behind it. -/
def Entry.weight (n : Nat) (e : Entry) : Nat :=
  if e.partsDone then 1 else Nat.pow 4 (n - e.address)

theorem Entry.weight_pos (n : Nat) (e : Entry) : 0 < e.weight n := by
  rw [weight]
  split
  · exact Nat.one_pos
  · exact Nat.pow_pos (Nat.succ_pos 3)

/-- The weight of a stack. -/
def Entry.load (n : Nat) : List Entry → Nat
  | [] => 0
  | e :: rest => e.weight n + load n rest

theorem Entry.load_append (n : Nat) (stack rest : List Entry) :
    load n (stack ++ rest) = load n stack + load n rest := by
  induction stack with
  | nil => exact (Nat.zero_add _).symm
  | cons e stack ih =>
    rw [List.cons_append, load, load, ih]
    exact (Nat.add_assoc _ _ _).symm

/-- The truth values that have been found for the nodes of a memory of `n` cells. -/
abbrev Found (n : Nat) := Vector (Option Bool) n

namespace Found

variable {n : Nat}

/-- The truth value that is stored for a node, if there is one. -/
def get? (found : Found n) (address : Nat) : Option Bool := found[address]?.join

/-- The values with that of one node stored. -/
def store (found : Found n) (address : Nat) (b : Bool) : Found n :=
  found.setIfInBounds address (some b)

end Found

namespace Memory

/-- An entry taken off the stack: the entries that are put onto it, uppermost first, and the values
    after it. A compound whose parts have not been evaluated comes back below them. There is no
    result if a value is looked up that has not been stored. -/
def pop? (m : Memory) (v : Valuation) (e : Entry) (found : Found m.size) :
    Option (List Entry × Found m.size) :=
  match m.cells[e.address]?, e.partsDone with
  | none, _ => none
  | some (.value b), _ => some ([], found.store e.address b)
  | some (.letter l), _ => some ([], found.store e.address (v l))
  | some (.negation part), false => some ([⟨part, false⟩, ⟨e.address, true⟩], found)
  | some (.negation part), true => do
    some ([], found.store e.address (!(← found.get? part)))
  | some (.binary _ left right), false =>
    some ([⟨left, false⟩, ⟨right, false⟩, ⟨e.address, true⟩], found)
  | some (.binary k left right), true => do
    some ([], found.store e.address (k.holds (← found.get? left) (← found.get? right)))

variable {m : Memory} {v : Valuation} {e : Entry} {found found' : Found m.size}
  {pushed : List Entry}

/-- An entry for a part weighs a quarter of the one for the whole at most. -/
theorem weight_part {c : Cell} {part : Nat} (hcell : m.cells[e.address]? = some c)
    (hdone : e.partsDone = false) (hpart : part ∈ c.parts) :
    4 * Entry.weight m.size ⟨part, false⟩ ≤ e.weight m.size := by
  have haddress : e.address < m.size := (Array.getElem?_eq_some_iff.1 hcell).1
  have hbehind := lt_of_mem_parts hcell hpart
  have hexponent : m.size - part + 1 ≤ m.size - e.address := by omega
  have hpow := Nat.pow_le_pow_right (Nat.succ_pos 3) hexponent
  rw [Nat.pow_succ, Nat.mul_comm] at hpow
  rw [Entry.weight, Entry.weight, hdone]
  exact hpow

/-- What is put onto the stack weighs less than what is taken off. -/
theorem load_lt_of_pop? (h : m.pop? v e found = some (pushed, found')) :
    Entry.load m.size pushed < e.weight m.size := by
  have hnone : Entry.load m.size [] < e.weight m.size := Entry.weight_pos m.size e
  unfold pop? at h
  split at h
  · cases h
  · cases h
    exact hnone
  · cases h
    exact hnone
  · rename_i part hcell hdone
    cases h
    have hpart := weight_part hcell hdone (List.mem_singleton_self part)
    have hpos := Entry.weight_pos m.size ⟨part, false⟩
    show Entry.weight m.size ⟨part, false⟩ + 1 < e.weight m.size
    omega
  · obtain ⟨b, -, hb⟩ := Option.bind_eq_some_iff.1 h
    cases hb
    exact hnone
  · rename_i k left right hcell hdone
    cases h
    have hleft := weight_part hcell hdone (List.mem_cons_self ..)
    have hright := weight_part hcell hdone (List.mem_cons_of_mem _ (List.mem_singleton_self right))
    have hpos := Entry.weight_pos m.size ⟨left, false⟩
    show Entry.weight m.size ⟨left, false⟩ + (Entry.weight m.size ⟨right, false⟩ + 1) <
      e.weight m.size
    omega
  · obtain ⟨b, -, hb⟩ := Option.bind_eq_some_iff.1 h
    obtain ⟨b', -, hb'⟩ := Option.bind_eq_some_iff.1 hb
    cases hb'
    exact hnone

/-- The values found and the number of entries taken off when the stack is empty. -/
def runFrom? (m : Memory) (v : Valuation) (stack : List Entry) (found : Found m.size)
    (pops : Nat) : Option (Found m.size × Nat) :=
  match stack with
  | [] => some (found, pops)
  | e :: rest =>
    match h : m.pop? v e found with
    | none => none
    | some (pushed, found) => runFrom? m v (pushed ++ rest) found (pops + 1)
  termination_by Entry.load m.size stack
  decreasing_by
    rw [Entry.load_append, Entry.load]
    have hload := load_lt_of_pop? h
    omega

/-- The truth value that the machine finds for the node at an address, and the number of entries
    that it takes off the stack. -/
def run? (m : Memory) (v : Valuation) (address : Nat) : Option (Bool × Nat) := do
  let (found, pops) ← m.runFrom? v [⟨address, false⟩] (Vector.replicate m.size none) 0
  some (← found.get? address, pops)

end Memory

/-- The truth value that the machine finds for a sentence. -/
def holdsByStack? (v : Valuation) (s : Sentence) : Option Bool :=
  ((Memory.ofSentence s).run? v 0).map (·.1)

end Sentence

end Credal
