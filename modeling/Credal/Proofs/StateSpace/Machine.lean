import Credal.StateSpace.Truth

/-!
# The machine evaluates sentences

A sentence in memory may be one node or many: equal parts of it may be the same node or different
ones. In every case the machine takes one entry off its stack for each leaf and two for each sign,
has stored each value before it is looked up, and finds the truth value of the sentence.

* `Memory.IsAt`: the node at an address is a sentence, and `IsAt.unique`;
* `isAt_layOut`, `isAt_ofSentence`: a sentence that is laid out is at its address;
* `Found.Right`, `Found.Grows`: the stored values are the truth values of their nodes, and none of
  them is lost;
* `Memory.Evaluates`, `exists_evaluates`: what the machine does with an entry for a node, by
  induction on the sentence that the node is;
* `machine_refines_recursion`: the run.
-/

namespace Credal

namespace Sentence

variable {m : Memory} {v : Valuation} {s t : Sentence} {a : Nat}

/-! ## 1. Nodes that are sentences -/

/-- The node at an address is a sentence. -/
inductive Memory.IsAt (m : Memory) : Nat → Sentence → Prop where
  | value {a : Nat} {b : Bool} (h : m.cells[a]? = some (.value b)) : IsAt m a (.value b)
  | letter {a : Nat} {l : Letter} (h : m.cells[a]? = some (.letter l)) : IsAt m a (.letter l)
  | negation {a part : Nat} {s : Sentence} (h : m.cells[a]? = some (.negation part))
      (hs : IsAt m part s) : IsAt m a (.negation s)
  | binary {a left right : Nat} {k : Connective} {s t : Sentence}
      (h : m.cells[a]? = some (.binary k left right)) (hs : IsAt m left s) (ht : IsAt m right t) :
      IsAt m a (.binary k s t)

namespace Memory

theorem IsAt.lt_size (h : m.IsAt a s) : a < m.size := by
  cases h with
  | value h => exact (Array.getElem?_eq_some_iff.1 h).1
  | letter h => exact (Array.getElem?_eq_some_iff.1 h).1
  | negation h => exact (Array.getElem?_eq_some_iff.1 h).1
  | binary h => exact (Array.getElem?_eq_some_iff.1 h).1

/-- **A node is one sentence only.** -/
theorem IsAt.unique (hs : m.IsAt a s) (ht : m.IsAt a t) : s = t := by
  induction hs generalizing t with
  | value h =>
    cases ht with
    | value h' => cases h.symm.trans h'; rfl
    | _ h' => cases h.symm.trans h'
  | letter h =>
    cases ht with
    | letter h' => cases h.symm.trans h'; rfl
    | _ h' => cases h.symm.trans h'
  | negation h _ ih =>
    cases ht with
    | negation h' hs' =>
      cases h.symm.trans h'
      rw [ih hs']
    | _ h' => cases h.symm.trans h'
  | binary h _ _ ihs iht =>
    cases ht with
    | binary h' hs' ht' =>
      cases h.symm.trans h'
      rw [ihs hs', iht ht']
    | _ h' => cases h.symm.trans h'

/-- A node whose parts are at consecutive addresses. -/
theorem isAt_of_cell (next : Nat) (h : m.cells[a]? = some (s.cell next))
    (hparts : ∀ (j : Nat) (p : Sentence), s.parts[j]? = some p → m.IsAt (next + j) p) :
    m.IsAt a s := by
  cases s with
  | value b => exact .value h
  | letter l => exact .letter h
  | negation s => exact .negation h (hparts 0 s rfl)
  | binary k s t => exact .binary h (hparts 0 s rfl) (hparts 1 t rfl)

theorem size_pushSentence (m : Memory) (s : Sentence) (waiting : Nat) :
    (m.pushSentence s waiting).size = m.size + 1 :=
  Array.size_push _

/-- Nodes stay where they are. -/
theorem getElem?_layOut (queue : List Sentence) (ha : a < m.size) :
    (m.layOut queue).cells[a]? = m.cells[a]? := by
  fun_induction layOut m queue with
  | case1 m => rfl
  | case2 m s rest ih =>
    have hpush : a < (m.pushSentence s rest.length).size := by
      rw [size_pushSentence]
      exact Nat.lt_succ_of_lt ha
    exact (ih hpush).trans (Array.getElem?_push.trans (if_neg (Nat.ne_of_lt ha)))

/-- **The sentences of a queue are laid out in order**, behind the nodes that are there. -/
theorem isAt_layOut (m : Memory) (queue : List Sentence) (j : Nat) (s : Sentence)
    (h : queue[j]? = some s) : (m.layOut queue).IsAt (m.size + j) s := by
  fun_induction layOut m queue generalizing j s with
  | case1 m => cases h
  | case2 m head rest ih =>
    rw [size_pushSentence] at ih
    cases j with
    | zero =>
      obtain rfl : head = s := Option.some.inj h
      have hsize : m.size < (m.pushSentence head rest.length).size := by
        rw [size_pushSentence]
        exact Nat.lt_succ_self _
      refine isAt_of_cell (m.size + 1 + rest.length) ?_ fun j p hp => ?_
      · exact (getElem?_layOut _ hsize).trans Array.getElem?_push_size
      · have hqueue : (rest ++ head.parts)[rest.length + j]? = some p := by
          rw [List.getElem?_append_right (Nat.le_add_right _ _), Nat.add_sub_cancel_left, hp]
        have hpart := ih _ _ hqueue
        rwa [← Nat.add_assoc] at hpart
    | succ j =>
      have hrest : rest[j]? = some s := h
      have hqueue : (rest ++ head.parts)[j]? = some s := by
        rw [List.getElem?_append_left (List.getElem?_eq_some_iff.1 hrest).1, hrest]
      have haddress : m.size + 1 + j = m.size + (j + 1) := by omega
      have hnext := ih _ _ hqueue
      rwa [haddress] at hnext

theorem isAt_ofSentence (s : Sentence) : (ofSentence s).IsAt 0 s :=
  isAt_layOut empty [s] 0 s rfl

end Memory

/-! ## 2. Values that are found -/

namespace Found

variable {found later : Found m.size} {b : Bool}

theorem get?_store_self (ha : a < m.size) : (found.store a b).get? a = some b := by
  rw [get?, store, Vector.getElem?_setIfInBounds_self_of_lt ha]
  rfl

theorem get?_store_of_ne {i : Nat} (h : a ≠ i) : (found.store a b).get? i = found.get? i := by
  rw [get?, store, Vector.getElem?_setIfInBounds_ne h, get?]

/-- All values that are stored are the truth values of their nodes. -/
def Right (v : Valuation) (found : Found m.size) : Prop :=
  ∀ a s b, m.IsAt a s → found.get? a = some b → b = s.holds v

/-- A node that has a value keeps one. -/
def Grows (found later : Found m.size) : Prop :=
  ∀ a, (found.get? a).isSome = true → (later.get? a).isSome = true

/-- No value is stored in the beginning. -/
theorem right_replicate (v : Valuation) :
    Right v (Vector.replicate m.size none : Found m.size) := by
  intro a s b _ h
  rw [get?, Vector.getElem?_replicate] at h
  split at h
  · cases h
  · cases h

/-- The truth value of a node may be stored, also where it is stored already. -/
theorem Right.store (h : Right v found) (ha : m.IsAt a s) :
    Right v (found.store a (s.holds v)) := by
  intro i t b ht hb
  by_cases hi : a = i
  · subst hi
    rw [get?_store_self ha.lt_size] at hb
    rw [← ha.unique ht]
    exact (Option.some.inj hb).symm
  · rw [get?_store_of_ne hi] at hb
    exact h i t b ht hb

theorem Grows.store (h : Grows found later) (ha : a < m.size) : Grows found (later.store a b) := by
  intro i hi
  by_cases hai : a = i
  · subst hai
    rw [get?_store_self ha]
    rfl
  · rw [get?_store_of_ne hai]
    exact h i hi

/-- A node that had a value still has its truth value. -/
theorem Grows.get?_eq (h : Grows found later) (hright : Right v later) (ha : m.IsAt a s)
    (hb : found.get? a = some b) : later.get? a = some (s.holds v) := by
  obtain ⟨b', hb'⟩ := Option.isSome_iff_exists.1 (h a (Option.isSome_of_eq_some hb))
  rw [hb', hright a s b' ha hb']

end Found

/-! ## 3. The run -/

namespace Memory

variable {found found' : Found m.size} {e : Entry} {rest pushed : List Entry} {pops : Nat}

theorem runFrom?_nil : m.runFrom? v [] found pops = some (found, pops) := by
  rw [runFrom?]

/-- One entry is taken off. -/
theorem runFrom?_cons (h : m.pop? v e found = some (pushed, found')) (rest : List Entry)
    (pops : Nat) :
    m.runFrom? v (e :: rest) found pops = m.runFrom? v (pushed ++ rest) found' (pops + 1) := by
  rw [runFrom?]
  split
  · rename_i hnone
    cases h.symm.trans hnone
  · rename_i hsome
    cases h.symm.trans hsome
    rfl

/-- The machine started on a node comes to the entries below it with the truth value of the node
    stored, having taken off one entry for each leaf and two for each sign. -/
structure Evaluates (m : Memory) (v : Valuation) (a : Nat) (s : Sentence)
    (found later : Found m.size) : Prop where
  run : ∀ rest pops, m.runFrom? v (⟨a, false⟩ :: rest) found pops =
    m.runFrom? v rest later (pops + (s.leafCount + 2 * s.signCount))
  right : later.Right v
  grows : found.Grows later
  stored : later.get? a = some (s.holds v)

/-- The value of a node is stored last. -/
theorem evaluates_store (ha : m.IsAt a s) (hright : found'.Right v) (hgrows : found.Grows found')
    (hrun : ∀ rest pops, m.runFrom? v (⟨a, false⟩ :: rest) found pops =
      m.runFrom? v rest (found'.store a (s.holds v)) (pops + (s.leafCount + 2 * s.signCount))) :
    m.Evaluates v a s found (found'.store a (s.holds v)) where
  run := hrun
  right := hright.store ha
  grows := hgrows.store ha.lt_size
  stored := Found.get?_store_self ha.lt_size

/-- **The machine evaluates every node.** -/
theorem exists_evaluates (ha : m.IsAt a s) (hright : found.Right v) :
    ∃ later, m.Evaluates v a s found later := by
  induction ha generalizing found with
  | @value a b h =>
    have hpop : m.pop? v ⟨a, false⟩ found = some ([], found.store a b) := by rw [pop?, h]
    exact ⟨_, evaluates_store (.value h) hright (fun _ hi => hi) fun rest pops =>
      runFrom?_cons hpop rest pops⟩
  | @letter a l h =>
    have hpop : m.pop? v ⟨a, false⟩ found = some ([], found.store a (v l)) := by rw [pop?, h]
    exact ⟨_, evaluates_store (.letter h) hright (fun _ hi => hi) fun rest pops =>
      runFrom?_cons hpop rest pops⟩
  | @negation a part s h hs ih =>
    obtain ⟨later, hpart⟩ := ih hright
    have hfirst : m.pop? v ⟨a, false⟩ found = some ([⟨part, false⟩, ⟨a, true⟩], found) := by
      rw [pop?, h]
    have hlast : m.pop? v ⟨a, true⟩ later = some ([], later.store a (!s.holds v)) := by
      simp only [pop?, h, hpart.stored]
      rfl
    refine ⟨_, evaluates_store (.negation h hs) hpart.right hpart.grows fun rest pops => ?_⟩
    have hcount : pops + 1 + (s.leafCount + 2 * s.signCount) + 1 =
        pops + (s.leafCount + 2 * (s.signCount + 1)) := by omega
    calc m.runFrom? v (⟨a, false⟩ :: rest) found pops
        = m.runFrom? v (⟨part, false⟩ :: ⟨a, true⟩ :: rest) found (pops + 1) :=
          runFrom?_cons hfirst rest pops
      _ = m.runFrom? v (⟨a, true⟩ :: rest) later _ := hpart.run _ _
      _ = m.runFrom? v rest (later.store a (!s.holds v)) _ := runFrom?_cons hlast rest _
      _ = _ := by rw [hcount]; rfl
  | @binary a left right k s t h hs ht ihs iht =>
    obtain ⟨middle, hleft⟩ := ihs hright
    obtain ⟨later, hlater⟩ := iht hleft.right
    have hfirst : m.pop? v ⟨a, false⟩ found =
        some ([⟨left, false⟩, ⟨right, false⟩, ⟨a, true⟩], found) := by
      rw [pop?, h]
    -- the right side may store a value for the left node again, and it is the same
    have hkept : later.get? left = some (s.holds v) :=
      hlater.grows.get?_eq hlater.right hs hleft.stored
    have hlast : m.pop? v ⟨a, true⟩ later =
        some ([], later.store a (k.holds (s.holds v) (t.holds v))) := by
      simp only [pop?, h, hkept, hlater.stored]
      rfl
    have hgrows : found.Grows later := fun i hi => hlater.grows i (hleft.grows i hi)
    refine ⟨_, evaluates_store (.binary h hs ht) hlater.right hgrows fun rest pops => ?_⟩
    have hcount : pops + 1 + (s.leafCount + 2 * s.signCount) + (t.leafCount + 2 * t.signCount) + 1 =
        pops + (s.leafCount + t.leafCount + 2 * (s.signCount + t.signCount + 1)) := by omega
    calc m.runFrom? v (⟨a, false⟩ :: rest) found pops
        = m.runFrom? v (⟨left, false⟩ :: ⟨right, false⟩ :: ⟨a, true⟩ :: rest) found (pops + 1) :=
          runFrom?_cons hfirst rest pops
      _ = m.runFrom? v (⟨right, false⟩ :: ⟨a, true⟩ :: rest) middle _ := hleft.run _ _
      _ = m.runFrom? v (⟨a, true⟩ :: rest) later _ := hlater.run _ _
      _ = m.runFrom? v rest (later.store a (k.holds (s.holds v) (t.holds v))) _ :=
          runFrom?_cons hlast rest _
      _ = _ := by rw [hcount]; rfl

/-- **The run on a node ends with the truth value of its sentence.** -/
theorem run?_eq (ha : m.IsAt a s) :
    m.run? v a = some (s.holds v, s.leafCount + 2 * s.signCount) := by
  obtain ⟨later, h⟩ := exists_evaluates ha (Found.right_replicate v)
  rw [run?, h.run, runFrom?_nil, Nat.zero_add]
  show (later.get? a).bind _ = _
  rw [h.stored]
  rfl

end Memory

/-- The machine finds the truth value of every sentence. -/
theorem holdsByStack?_eq (v : Valuation) (s : Sentence) :
    s.holdsByStack? v = some (s.holds v) := by
  rw [holdsByStack?, Memory.run?_eq (Memory.isAt_ofSentence s)]
  rfl

/-- **The machine refines the recursion.** Wherever a sentence is in memory and whichever of its
    parts are the same node, the run ends, each value that it looks up has been stored before, it
    takes one entry off for each leaf and two for each sign, and the value found is the one of the
    recursion. Every sentence can be laid out in memory, with a node for each occurrence. -/
theorem machine_refines_recursion (v : Valuation) (s : Sentence) :
    (∀ (m : Memory) (a : Nat), m.IsAt a s →
      m.run? v a = some (s.holds v, s.leafCount + 2 * s.signCount)) ∧
    (Memory.ofSentence s).IsAt 0 s ∧ s.holdsByStack? v = some (s.holds v) :=
  ⟨fun _ _ ha => Memory.run?_eq ha, Memory.isAt_ofSentence s, holdsByStack?_eq v s⟩

/-- One node for `P ∨ ~P` on both sides of a conditional, and one node for `P` in it: its value is
    stored four times and each sign is come to twice. -/
theorem machine_refines_recursion_of_shared :
    let m : Memory :=
      ⟨#[.binary .conditional 1 1, .binary .disjunction 3 2, .negation 3, .letter ⟨"P", 0⟩],
        by decide⟩
    let P : Sentence := .letter ⟨"P", 0⟩
    let side : Sentence := .binary .disjunction P (.negation P)
    m.IsAt 0 (.binary .conditional side side) ∧ m.run? (fun _ => false) 0 = some (true, 14) := by
  intro m P side
  have hP : m.IsAt 3 P := .letter rfl
  have hside : m.IsAt 1 side := .binary rfl hP (.negation rfl hP)
  have hwhole : m.IsAt 0 (.binary .conditional side side) := .binary rfl hside hside
  exact ⟨hwhole, (machine_refines_recursion (fun _ => false) _).1 m 0 hwhole⟩

end Sentence

end Credal
