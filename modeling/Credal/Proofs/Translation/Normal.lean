import Credal.Proofs.Smt.Meaning
import Credal.Proofs.Translation.Guards
import Credal.Smt.Request

/-!
# Translation as a normal form

A translated node is one without probabilities, and such nodes are translated to themselves. What
translation brings in are sums of states: each lists states of the table in ascending order, and
never all of them, as the mass of all states is written as one. The axioms and guards hold no
probability either, so a translated job can be translated again without a change and encoded.

* `Node.letters_of_isTranslated`, `Node.isTranslated_translate`: nodes without probabilities;
* `TruthTable.ProperSum`, `Node.stateSum_of_part?_translate`: the sums that are brought in;
* `Node.reals_translate`: the real variables stay as they are;
* `Node.translate_of_isTranslated`: nodes without probabilities stay as they are;
* `isTranslated_enrich`, `request_ne_probability`: axioms and guards, and their encoding;
* `translation_is_normal`: all of them together.
-/

namespace Credal

variable {t : TruthTable} {n s : Node}

/-! ## 1. Nodes without probabilities -/

namespace Node

/-- A node without probabilities has no letters. -/
theorem letters_of_isTranslated (h : n.isTranslated = true) : n.letters = [] := by
  refine List.eq_nil_iff_forall_not_mem.2 fun l hl => ?_
  obtain ⟨p, s, hs, hown⟩ := mem_letters_iff.1 hl
  have hnone : s.isProbability = false := isTranslated_iff.1 h p s hs
  unfold ownLetters at hown
  split at hown
  · exact nomatch hnone
  · exact nomatch hnone
  · exact nomatch hown

theorem isTranslated_translate (t : TruthTable) (n : Node) :
    (n.translate t).isTranslated = true := by
  cases n with
  | real e => exact e.isTranslated_translate t
  | constraint c => exact c.isTranslated_translate t

end Node

/-! ## 2. Sums of states -/

/-- The list of a sum that stands for a mass: states of the table in ascending order, but not all
    of them. -/
structure TruthTable.ProperSum (t : TruthTable) (is : List Int) : Prop where
  ascending : is.Pairwise (· < ·)
  states : ∀ i ∈ is, 0 ≤ i ∧ i < t.stateCount
  notAll : is.length < t.stateCount

/-- An index in a proper sum is that of a state. -/
theorem TruthTable.ProperSum.exists_state {is : List Int} {i : Int} (h : t.ProperSum is)
    (hi : i ∈ is) : ∃ k < t.stateCount, (k : Int) = i := by
  obtain ⟨h0, hlt⟩ := h.states i hi
  obtain ⟨k, rfl⟩ := Int.eq_ofNat_of_zero_le h0
  exact ⟨k, Int.ofNat_lt.1 hlt, rfl⟩

namespace TruthTable

theorem length_dnf_le (t : TruthTable) (S : Sentence) : (t.dnf S).length ≤ t.stateCount := by
  have hlen : t.states.length = t.stateCount := List.length_range
  rw [← hlen]
  exact List.length_filter_le _ _

/-- **A mass that is written as a sum is a proper one.** -/
theorem properSum_of_mass {S : Sentence} {is : List Int} (h : t.mass S = .stateSum is) :
    t.ProperSum is := by
  unfold mass at h
  simp only at h
  split at h
  · exact nomatch h
  · rename_i hlen
    obtain rfl := RealExpr.stateSum.inj h
    refine ⟨List.pairwise_map.2 ((t.pairwise_dnf S).imp Int.ofNat_lt.2), fun i hi => ?_, ?_⟩
    · obtain ⟨k, hk, rfl⟩ := List.mem_map.1 hi
      exact ⟨Int.natCast_nonneg k, Int.ofNat_lt.2 (mem_dnf.1 hk).1⟩
    · rw [List.length_map]
      exact lt_of_le_of_ne (t.length_dnf_le S) hlen

theorem reals_mass (t : TruthTable) (S : Sentence) : (t.mass S).reals = [] := by
  rcases t.mass_cases S with h | h <;> rw [h] <;> rfl

/-- A mass has no parts but itself. -/
theorem children_mass (t : TruthTable) (S : Sentence) : (Node.real (t.mass S)).children = [] := by
  rcases t.mass_cases S with h | h <;> rw [h] <;> rfl

theorem properSum_of_part?_mass {S : Sentence} {p : List Nat} {is : List Int}
    (h : (Node.real (t.mass S)).part? p = some (.real (.stateSum is))) : t.ProperSum is := by
  cases p with
  | nil => exact properSum_of_mass (Node.real.inj (Option.some.inj h))
  | cons i p =>
    obtain ⟨m, hm, -⟩ := Node.part?_cons_eq_some_iff.1 h
    rw [t.children_mass, List.getElem?_nil] at hm
    exact absurd hm.symm (Option.some_ne_none m)

end TruthTable

namespace Node

theorem children_of_isProbability (h : n.isProbability = true) : n.children = [] := by
  unfold isProbability at h
  split at h
  · rfl
  · rfl
  · exact nomatch h

/-- Translation goes into the children of a node that is no probability. -/
theorem children_translate (h : n.isProbability = false) :
    (n.translate t).children = n.children.map (·.translate t) := by
  cases n with
  | constraint c => cases c <;> rfl
  | real e =>
    cases e with
    | probability S => exact nomatch h
    | given S T => exact nomatch h
    | _ => rfl

/-- **A part is translated in its place.** -/
theorem part?_translate {p : List Nat} (h : n.part? p = some s) :
    (n.translate t).part? p = some (s.translate t) := by
  induction p generalizing n with
  | nil =>
    obtain rfl := Option.some.inj h
    rfl
  | cons i p ih =>
    obtain ⟨m, hm, hs⟩ := part?_cons_eq_some_iff.1 h
    have hn : n.isProbability = false := by
      by_contra hn
      rw [children_of_isProbability (Bool.eq_true_of_not_eq_false hn)] at hm
      exact nomatch hm
    refine part?_cons_eq_some_iff.2 ⟨m.translate t, ?_, ih hs⟩
    rw [children_translate hn, List.getElem?_map, hm]
    rfl

/-- A sum in the place of a probability is proper. -/
theorem properSum_of_isProbability (h : n.isProbability = true) {p : List Nat} {is : List Int}
    (hp : (n.translate t).part? p = some (.real (.stateSum is))) : t.ProperSum is := by
  unfold isProbability at h
  split at h
  · exact TruthTable.properSum_of_part?_mass hp
  · cases p with
    | nil => exact nomatch hp
    | cons i p =>
      obtain ⟨m, hm, hp⟩ := part?_cons_eq_some_iff.1 hp
      -- the children of the quotient are the masses of both and of the condition
      rcases List.mem_pair.1 (List.mem_of_getElem? hm) with rfl | rfl
      · exact TruthTable.properSum_of_part?_mass hp
      · exact TruthTable.properSum_of_part?_mass hp
  · exact nomatch h

/-- **The sums of a translation** stand in the node at the same place, or are proper. -/
theorem stateSum_of_part?_translate {p : List Nat} {is : List Int}
    (h : (n.translate t).part? p = some (.real (.stateSum is))) :
    n.part? p = some (.real (.stateSum is)) ∨ t.ProperSum is := by
  induction p generalizing n with
  | nil =>
    cases hn : n.isProbability with
    | true => exact Or.inr (properSum_of_isProbability hn h)
    | false =>
      -- only a sum of states is translated to one
      left
      cases n with
      | constraint c => exact nomatch h
      | real e =>
        cases e with
        | probability S => exact nomatch hn
        | stateSum js => exact h
        | _ => exact nomatch h
  | cons i p ih =>
    cases hn : n.isProbability with
    | true => exact Or.inr (properSum_of_isProbability hn h)
    | false =>
      obtain ⟨m, hm, hp⟩ := part?_cons_eq_some_iff.1 h
      rw [children_translate hn, List.getElem?_map] at hm
      obtain ⟨m, hchild, rfl⟩ := Option.map_eq_some_iff.1 hm
      refine (ih hp).imp_left fun hsame => ?_
      exact part?_cons_eq_some_iff.2 ⟨m, hchild, hsame⟩

/-- The sums of a translation are proper if the node holds none itself. -/
theorem properSum_of_isSource (h : n.isSource = true) {p : List Nat} {is : List Int}
    (hp : (n.translate t).part? p = some (.real (.stateSum is))) : t.ProperSum is :=
  (stateSum_of_part?_translate hp).resolve_left fun hown => nomatch isSource_iff.1 h p _ hown

end Node

/-! ## 3. Variables -/

theorem RealExpr.reals_translate (e : RealExpr) : (e.translate t).reals = e.reals := by
  induction e with
  | literal x => rfl
  | var name => rfl
  | stateSum is => rfl
  | probability S => exact t.reals_mass S
  | given S T => exact congrArg₂ (· ++ ·) (t.reals_mass _) (t.reals_mass T)
  | negative e ih => exact ih
  | arith op a b iha ihb => exact congrArg₂ (· ++ ·) iha ihb
  | divide a b iha ihb => exact congrArg₂ (· ++ ·) iha ihb
  | power a b iha ihb => exact congrArg₂ (· ++ ·) iha ihb

theorem Constraint.reals_translate (c : Constraint) : (c.translate t).reals = c.reals := by
  induction c with
  | compare r a b => exact congrArg₂ (· ++ ·) a.reals_translate b.reals_translate
  | negation c ih => exact ih
  | binary k c d ihc ihd => exact congrArg₂ (· ++ ·) ihc ihd

/-- **Translation keeps the real variables** in the order in which they are met. -/
theorem Node.reals_translate (n : Node) : (n.translate t).reals = n.reals := by
  cases n with
  | real e => exact e.reals_translate
  | constraint c => exact c.reals_translate

/-! ## 4. Translating again -/

theorem RealExpr.translate_of_isTranslated {e : RealExpr} (h : e.isTranslated = true) :
    e.translate t = e := by
  induction e with
  | literal x => rfl
  | var name => rfl
  | stateSum is => rfl
  | probability S => exact nomatch h
  | given S T => exact nomatch h
  | negative e ih => exact congrArg negative (ih h)
  | arith op a b iha ihb =>
    obtain ⟨ha, hb⟩ := Bool.and_eq_true_iff.1 h
    exact congrArg₂ (arith op) (iha ha) (ihb hb)
  | divide a b iha ihb =>
    obtain ⟨ha, hb⟩ := Bool.and_eq_true_iff.1 h
    exact congrArg₂ divide (iha ha) (ihb hb)
  | power a b iha ihb =>
    obtain ⟨ha, hb⟩ := Bool.and_eq_true_iff.1 h
    exact congrArg₂ power (iha ha) (ihb hb)

theorem Constraint.translate_of_isTranslated {c : Constraint} (h : c.isTranslated = true) :
    c.translate t = c := by
  induction c with
  | compare r a b =>
    obtain ⟨ha, hb⟩ := Bool.and_eq_true_iff.1 h
    exact congrArg₂ (compare r) (a.translate_of_isTranslated ha) (b.translate_of_isTranslated hb)
  | negation c ih => exact congrArg negation (ih h)
  | binary k c d ihc ihd =>
    obtain ⟨hc, hd⟩ := Bool.and_eq_true_iff.1 h
    exact congrArg₂ (binary k) (ihc hc) (ihd hd)

/-- **A node without probabilities is translated to itself.** -/
theorem Node.translate_of_isTranslated (h : n.isTranslated = true) : n.translate t = n := by
  cases n with
  | real e => exact congrArg real (RealExpr.translate_of_isTranslated h)
  | constraint c => exact congrArg constraint (Constraint.translate_of_isTranslated h)

variable {regular : Bool} {cs : List Constraint}

/-- **Axioms and guards hold no probability** where the constraints hold none. -/
theorem isTranslated_enrich (hcs : ∀ c ∈ cs, c.isTranslated = true) :
    ∀ c ∈ enrich t regular cs, c.isTranslated = true :=
  forall_mem_enrich (fun c hc => (ready_probabilityAxioms t regular c hc).1)
    (fun c hc _ hg => Node.isTranslated_of_mem_guards (n := .constraint c) (hcs c hc) hg) hcs

/-- Constraints without probabilities are encoded without the fault of one. -/
theorem request_ne_probability {reals : List String} (hcs : ∀ c ∈ cs, c.isTranslated = true) :
    request t reals cs ≠ .error .probability := by
  have hassert : assertions cs ≠ .error .probability :=
    mapM_ne_error fun c hc => bind_ne_error (c.encode_ne_probability (hcs c hc))
  exact bind_ne_error (bind_ne_error hassert)

/-- **Translation reaches a normal form.** A translated node holds no probability; the sums that are
    brought in list states of the table in ascending order, and not all of them; the real variables
    are met in the same order. A node without probabilities, hence a translated one, is translated
    to itself, and so are the axioms and guards of translated constraints, so that the encoding
    meets no probability. -/
theorem translation_is_normal (t : TruthTable) :
    (∀ n : Node,
      (n.translate t).Everywhere (·.isProbability = false) ∧
      (∀ p is, (n.translate t).part? p = some (.real (.stateSum is)) →
        n.part? p = some (.real (.stateSum is)) ∨ t.ProperSum is) ∧
      (variablesOf [n.translate t]).reals = (variablesOf [n]).reals ∧
      (n.Everywhere (·.isProbability = false) → n.translate t = n) ∧
      (n.translate t).translate t = n.translate t) ∧
    ∀ (regular : Bool) (cs : List Constraint),
      (enrich t regular (cs.map (·.translate t))).map (·.translate t) =
        enrich t regular (cs.map (·.translate t)) ∧
      ∀ reals, request t reals (enrich t regular (cs.map (·.translate t))) ≠
        .error .probability := by
  constructor
  · intro n
    have htranslated := n.isTranslated_translate t
    refine ⟨Node.isTranslated_iff.1 htranslated, fun p is => Node.stateSum_of_part?_translate, ?_,
      fun h => Node.translate_of_isTranslated (Node.isTranslated_iff.2 h),
      Node.translate_of_isTranslated htranslated⟩
    simp only [variablesOf, List.flatMap_singleton, n.reals_translate]
  · intro regular cs
    have htranslated : ∀ c ∈ cs.map (·.translate t), c.isTranslated = true := by
      intro c hc
      obtain ⟨c, -, rfl⟩ := List.mem_map.1 hc
      exact c.isTranslated_translate t
    have henriched : ∀ c ∈ enrich t regular (cs.map (·.translate t)), c.isTranslated = true :=
      isTranslated_enrich htranslated
    have hsame : ∀ c ∈ enrich t regular (cs.map (·.translate t)), c.translate t = id c :=
      fun c hc => Constraint.translate_of_isTranslated (henriched c hc)
    exact ⟨(List.map_congr_left hsame).trans (List.map_id _),
      fun reals => request_ne_probability henriched⟩

/-- A conditional probability becomes a quotient of two proper sums, which stays as it is. -/
theorem translation_is_normal_of_given :
    let t : TruthTable := ⟨[⟨"P", 0⟩, ⟨"Q", 0⟩], by decide⟩
    let n : Node := .real (.given (.letter ⟨"P", 0⟩) (.letter ⟨"Q", 0⟩))
    let m : Node := .real (.divide (.stateSum [0]) (.stateSum [0, 2]))
    n.translate t = m ∧ t.ProperSum [0, 2] ∧ m.translate t = m := by
  intro t n m
  obtain ⟨hnodes, -⟩ := translation_is_normal t
  obtain ⟨hnone, hsums, -⟩ := hnodes n
  have hm : n.translate t = m := by decide +kernel
  rw [hm] at hnone hsums
  refine ⟨hm, (hsums [1] [0, 2] rfl).resolve_left ?_, (hnodes m).2.2.2.1 hnone⟩
  decide

end Credal
