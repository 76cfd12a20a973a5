import Credal.Proofs.Model.RootObjects
import Credal.Proofs.SExpr.Grammar

/-!
# What decoding ends with

A term is a value, or there is a fault. Most faults describe the term: they quote an atom, a
monomial or two degrees. Three do not. A numeral can be a quotient by zero, two degrees that do not
fall can be too long to be written, and zeros between two monomials can be too many for the memory.

A root object has one coefficient for each degree from the highest down to the lowest, and then one
for each degree down to zero. So there are more of them than there are degrees up to the highest if
the lowest degree is below zero.

* `IsReported`, `DividesByZero`, `FaultIn`: the faults of a term outside of root objects, one lemma
  for each function of the decoder;
* `DegreeFault`, `fault_of_coefficientsAfter`: the faults of the degrees of a sum;
* `length_filled_eq`: the number of coefficients;
* `valueTerms`, `ModelValue.parts`: the terms that are read as values, and the values;
* `decoding_ends`: a whole term.
-/

namespace Credal

open Credal.Number Credal.SExpr

/-! ## 1. Faults -/

/-- The fault describes the term. -/
def DecodeFault.IsReported : DecodeFault → Prop
  | .unwritable | .gapTooLarge _ | .zeroDenominator => False
  | _ => True

/-- A numeral of the term is a quotient by zero. -/
def SExpr.DividesByZero (s : SExpr) : Prop :=
  ∃ t, .atom t ∈ s.flatten ∧ readRational t = .error .zeroDenominator

/-- A fault that describes the term, or that comes from a quotient by zero in it. -/
def FaultIn (s : SExpr) (f : DecodeFault) : Prop :=
  f.IsReported ∨ f = .zeroDenominator ∧ s.DividesByZero

variable {s t : SExpr} {f : DecodeFault} {items : List SExpr}

theorem SExpr.DividesByZero.of_mem (h : s.DividesByZero) (hs : s ∈ items) :
    (SExpr.list items).DividesByZero := by
  obtain ⟨t, ht, hzero⟩ := h
  refine ⟨t, ?_, hzero⟩
  simp only [flatten, List.mem_cons, List.mem_append, mem_flattenItems]
  exact .inr (.inl ⟨s, hs, ht⟩)

theorem FaultIn.of_mem (h : FaultIn s f) (hs : s ∈ items) : FaultIn (.list items) f := by
  rcases h with h | ⟨hf, hzero⟩
  · exact .inl h
  · exact .inr ⟨hf, hzero.of_mem hs⟩

/-! ## 2. Integers and monomials -/

theorem dividesByZero_atom {text : String} (h : readRational text = .error .zeroDenominator) :
    (SExpr.atom text).DividesByZero := ⟨text, List.mem_singleton_self _, h⟩

/-- **An optional integer** has no fault but a quotient by zero. -/
theorem fault_of_integerValue? (h : integerValue? s = .error f) : FaultIn s f := by
  rcases s with text | items
  · cases hread : readRational text with
    | ok q =>
      rw [integerValue?, hread] at h
      cases h
    | error fault =>
      rw [integerValue?, hread] at h
      cases fault with
      | malformed => cases h
      | zeroDenominator =>
        cases h
        exact .inr ⟨rfl, dividesByZero_atom hread⟩
  · cases h

theorem fault_of_requireInteger {role : IntegerRole} (h : requireInteger role s = .error f) :
    FaultIn s f := by
  rcases bind_eq_error_iff.1 h with h | ⟨_ | i, -, h⟩
  · exact fault_of_integerValue? h
  · cases h
    exact .inl trivial
  · cases h

theorem fault_of_coefficient (h : coefficient s = .error f) : FaultIn s f := by
  unfold coefficient at h
  split at h
  · rcases bind_eq_error_iff.1 h with h | ⟨i, -, h⟩
    · exact (fault_of_requireInteger h).of_mem (by simp)
    · cases h
  · exact fault_of_requireInteger h

theorem fault_of_powerDegree? (h : powerDegree? s = .error f) : FaultIn s f := by
  unfold powerDegree? at h
  split at h
  · cases h
  · exact (fault_of_requireInteger (map_eq_error_iff.1 h)).of_mem (by simp)
  · cases h

theorem fault_of_negatedMonomial (h : negatedMonomial s = .error f) : FaultIn s f := by
  rcases bind_eq_error_iff.1 h with h | ⟨_ | d, -, h⟩
  · exact fault_of_powerDegree? h
  · rcases bind_eq_error_iff.1 h with h | ⟨i, -, h⟩
    · exact fault_of_requireInteger h
    · cases h
  · cases h

theorem fault_of_productMonomial {whole : SExpr} (h : productMonomial whole s t = .error f)
    (hs : s ∈ items) (ht : t ∈ items) : FaultIn (.list items) f := by
  rcases bind_eq_error_iff.1 h with h | ⟨_ | d, -, h⟩
  · exact (fault_of_powerDegree? h).of_mem ht
  · cases h
    exact .inl trivial
  · rcases bind_eq_error_iff.1 h with h | ⟨i, -, h⟩
    · exact (fault_of_coefficient h).of_mem hs
    · cases h

/-- **A monomial** has no fault but one that describes it, or a quotient by zero. -/
theorem fault_of_monomial (h : monomial s = .error f) : FaultIn s f := by
  unfold monomial at h
  rcases bind_eq_error_iff.1 h with h | ⟨_ | d, -, h⟩
  · exact fault_of_powerDegree? h
  · rcases bind_eq_error_iff.1 h with h | ⟨_ | c, -, h⟩
    · exact fault_of_integerValue? h
    · split at h
      · cases ‹none = some _›
      · split at h
        · exact (fault_of_negatedMonomial h).of_mem (by simp)
        · exact fault_of_productMonomial h (by simp) (by simp)
        · cases h
          exact .inl trivial
    · cases h
  · cases h

/-! ## 3. Sums of monomials -/

/-- A fault of the degrees of a sum: two neighbours do not fall, or there is no memory for the zeros
    between them or after the last one. -/
inductive DegreeFault (room : Nat) (terms : List SExpr) : DecodeFault → Prop
  | rise {s t : SExpr} {b c d e : Int} (place : [s, t] <:+: terms) (first : monomial s = .ok (b, d))
      (second : monomial t = .ok (c, e)) (rise : d ≤ e) : DegreeFault room terms (fallFault e d)
  | gap {s t : SExpr} {b c d e : Int} (place : [s, t] <:+: terms) (first : monomial s = .ok (b, d))
      (second : monomial t = .ok (c, e)) (large : room < d - e - 1) :
      DegreeFault room terms (.gapTooLarge (d - e - 1))
  | tail {s : SExpr} {c d : Int} (place : [s] <:+ terms) (last : monomial s = .ok (c, d))
      (large : room < d) : DegreeFault room terms (.gapTooLarge d)

variable {room : Nat} {terms : List SExpr} {c d : Int}

/-- A place behind one more monomial. -/
theorem DegreeFault.cons (h : DegreeFault room terms f) (s : SExpr) :
    DegreeFault room (s :: terms) f := by
  cases h with
  | rise place first second rise => exact .rise (List.infix_cons place) first second rise
  | gap place first second large => exact .gap (List.infix_cons place) first second large
  | tail place last large => exact .tail (place.trans (List.suffix_cons s terms)) last large

/-- **Why nothing is read after a monomial**: one of the other monomials has a fault, or the degrees
    have. -/
theorem fault_of_coefficientsAfter (hs : monomial s = .ok (c, d))
    (h : coefficientsAfter room d terms = .error f) :
    (∃ t ∈ terms, FaultIn t f) ∨ DegreeFault room (s :: terms) f := by
  induction terms generalizing s c d with
  | nil =>
    obtain ⟨hlarge, rfl⟩ := eq_of_zeros_eq_error h
    exact .inr (.tail (List.suffix_refl _) hs hlarge)
  | cons t terms ih =>
    rw [coefficientsAfter] at h
    rcases bind_eq_error_iff.1 h with h | ⟨⟨b, e⟩, ht, h⟩
    · exact .inl ⟨t, List.mem_cons_self, fault_of_monomial h⟩
    · have hplace : [s, t] <:+: s :: t :: terms := ⟨[], terms, rfl⟩
      by_cases hrise : d ≤ e
      · simp only [if_pos hrise] at h
        obtain rfl : fallFault e d = f := Except.error.inj h
        exact .inr (.rise hplace hs ht hrise)
      · simp only [if_neg hrise] at h
        rcases bind_eq_error_iff.1 h with h | ⟨gap, -, h⟩
        · obtain ⟨hlarge, rfl⟩ := eq_of_zeros_eq_error h
          exact .inr (.gap hplace hs ht hlarge)
        · rcases bind_eq_error_iff.1 h with h | ⟨lower, -, h⟩
          · rcases ih ht h with ⟨u, hu, hf⟩ | hf
            · exact .inl ⟨u, List.mem_cons_of_mem _ hu, hf⟩
            · exact .inr (hf.cons s)
          · cases h

/-- **Why nothing is read from a sum.** -/
theorem fault_of_coefficientsOf (h : coefficientsOf room s = .error f) :
    FaultIn s f ∨ ∃ terms, s = .app "+" terms ∧ DegreeFault room terms f := by
  unfold coefficientsOf at h
  split at h
  · rename_i first rest
    rcases bind_eq_error_iff.1 h with h | ⟨⟨c, d⟩, hfirst, h⟩
    · exact .inl ((fault_of_monomial h).of_mem (by simp))
    · rcases bind_eq_error_iff.1 h with h | ⟨lower, -, h⟩
      · rcases fault_of_coefficientsAfter hfirst h with ⟨t, ht, hf⟩ | hf
        · exact .inl (hf.of_mem (by simp [ht]))
        · exact .inr ⟨first :: rest, rfl, hf⟩
      · cases h
  · cases h
    exact .inl (.inl trivial)

/-- A fault of the degrees that is not reported. -/
theorem DegreeFault.cases_of_not_isReported (h : DegreeFault room terms f) (hf : ¬ f.IsReported) :
    f = .unwritable ∨ ∃ n : Int, room < n ∧ f = .gapTooLarge n := by
  cases h with
  | rise place first second rise =>
    unfold fallFault at hf ⊢
    split
    · rename_i hshort
      rw [if_pos hshort] at hf
      exact absurd trivial hf
    · exact .inl rfl
  | gap place first second large => exact .inr ⟨_, large, rfl⟩
  | tail place last large => exact .inr ⟨_, large, rfl⟩

/-! ## 4. The number of coefficients -/

/-- The monomials after one of degree `d` have all been read. -/
theorem exists_monomials_of_coefficientsAfter {q : Poly}
    (h : coefficientsAfter room d terms = .ok q) :
    ∃ ms, terms.mapM monomial = .ok ms := by
  induction terms generalizing d q with
  | nil => exact ⟨[], rfl⟩
  | cons t terms ih =>
    cases ht : monomial t with
    | error f =>
      rw [coefficientsAfter, ht] at h
      cases h
    | ok m =>
      rw [coefficientsAfter_cons_eq ht] at h
      split at h
      · cases h
      · obtain ⟨gap, lower, -, hlower, -⟩ := bind₂_eq_ok_iff.1 h
        obtain ⟨ms, hms⟩ := ih hlower
        exact ⟨m :: ms, mapM_cons_eq_ok_iff.2 ⟨m, ms, ht, hms, rfl⟩⟩

/-- **The number of coefficients after a monomial**: one for each degree down to the lowest, and
    then one for each down to zero. -/
theorem length_filled_eq {ms : List (Int × Int)} (h : (d :: ms.map (·.2)).IsChain (· > ·)) :
    ∃ e ∈ d :: ms.map (·.2), (∀ k ∈ d :: ms.map (·.2), e ≤ k) ∧
      ((filled d ms).length : Int) = d + max 0 (-e) := by
  induction ms generalizing d with
  | nil =>
    refine ⟨d, List.mem_singleton_self d, by simp, ?_⟩
    rw [filled, List.length_replicate]
    omega
  | cons m ms ih =>
    rw [List.map_cons, List.isChain_cons_cons] at h
    obtain ⟨hstep, hfall⟩ := h
    obtain ⟨e, he, hleast, hlength⟩ := ih hfall
    refine ⟨e, List.mem_cons_of_mem _ he, ?_, ?_⟩
    · refine List.forall_mem_cons.2 ⟨?_, hleast⟩
      exact (hleast m.2 List.mem_cons_self).trans hstep.le
    · rw [filled, List.length_append, List.length_replicate, List.length_cons]
      push_cast
      rw [hlength]
      omega

/-- The coefficients are those of a sum of monomials with the given degrees: the degrees fall, and
    there is a coefficient for each from the highest down to the lowest and on down to zero. -/
structure Poly.LaidOut (p : Poly) (degrees : List Int) : Prop where
  falling : degrees.Pairwise (· > ·)
  length : ∃ highest ∈ degrees, ∃ lowest ∈ degrees,
    (∀ k ∈ degrees, lowest ≤ k ∧ k ≤ highest) ∧ (p.length : Int) = 1 + highest + max 0 (-lowest)

/-- There is one coefficient for each degree from zero up to the highest of the given ones. -/
def Poly.IsSizedFor (p : Poly) (degrees : List Int) : Prop :=
  ∃ highest ∈ degrees, (∀ k ∈ degrees, k ≤ highest) ∧ (p.length : Int) = 1 + highest

/-- **There are as many coefficients as degrees up to the highest** exactly if no degree is below
    zero. -/
theorem Poly.LaidOut.isSizedFor_iff {p : Poly} {degrees : List Int} (h : p.LaidOut degrees) :
    p.IsSizedFor degrees ↔ ∀ k ∈ degrees, 0 ≤ k := by
  obtain ⟨highest, hhighest, lowest, hlowest, hbounds, hlength⟩ := h.length
  constructor
  · rintro ⟨highest', hmem, hbound, hlength'⟩ k hk
    have hle := hbound highest hhighest
    have hge := (hbounds highest' hmem).2
    have hk := (hbounds k hk).1
    omega
  · intro hnonneg
    refine ⟨highest, hhighest, fun k hk => (hbounds k hk).2, ?_⟩
    have hlow := hnonneg lowest hlowest
    omega

/-- **What is read from a sum.** -/
theorem laidOut_of_coefficientsOf {p : Poly} (h : coefficientsOf room s = .ok p) :
    ∃ terms ms, s = .app "+" terms ∧ terms.mapM monomial = .ok ms ∧ p.LaidOut (ms.map (·.2)) := by
  unfold coefficientsOf at h
  split at h
  · rename_i first rest
    cases hfirst : monomial first with
    | error f =>
      rw [hfirst] at h
      cases h
    | ok m =>
      rw [hfirst] at h
      obtain ⟨lower, hlower, rfl⟩ := bind_eq_ok_iff.1 h
      obtain ⟨ms, hms⟩ := exists_monomials_of_coefficientsAfter hlower
      obtain ⟨⟨hfall, -⟩, rfl⟩ := (coefficientsAfter_eq_ok_iff hms).1 hlower
      refine ⟨first :: rest, m :: ms, rfl, mapM_cons_eq_ok_iff.2 ⟨m, ms, hfirst, hms, rfl⟩,
        List.isChain_iff_pairwise.1 hfall, m.2, List.mem_cons_self, ?_⟩
      obtain ⟨lowest, hlowest, hleast, hlength⟩ := length_filled_eq hfall
      have hbelow := (List.pairwise_cons.1 (List.isChain_iff_pairwise.1 hfall)).1
      refine ⟨lowest, hlowest, fun k hk => ⟨hleast k hk, ?_⟩, ?_⟩
      · rcases List.mem_cons.1 hk with rfl | hk
        · exact le_refl _
        · exact (hbelow k hk).le
      · rw [List.length_cons]
        push_cast
        rw [hlength]
        omega
  · cases h

/-! ## 5. Values -/

/-- The terms inside a term that are read as values, in order. -/
def SExpr.valueTerms : SExpr → List SExpr
  | .list [.atom "-", s] => .list [.atom "-", s] :: s.valueTerms
  | .list [.atom "/", a, b] => .list [.atom "/", a, b] :: (a.valueTerms ++ b.valueTerms)
  | s => [s]

/-- The values inside a value, in order. -/
def ModelValue.parts : ModelValue → List ModelValue
  | .negative v => .negative v :: v.parts
  | .quotient a b => .quotient a b :: (a.parts ++ b.parts)
  | v => [v]

/-- A value is read from a term. A root object is the index and the sum of monomials of the term;
    its coefficients are laid out for the degrees of these, and there is one for each degree from
    zero up to the highest exactly if no degree is below zero. -/
structure ReadFrom (room : Nat) (s : SExpr) (v : ModelValue) : Prop where
  decoded : ModelValue.decode room s = .ok v
  root : ∀ index p, v = .root index p → ∃ terms i ms, s = .app "root-obj" [.app "+" terms, i] ∧
    requireInteger .rootIndex i = .ok index ∧ terms.mapM monomial = .ok ms ∧
    p.LaidOut (ms.map (·.2)) ∧ (p.IsSizedFor (ms.map (·.2)) ↔ ∀ m ∈ ms, 0 ≤ m.2)

theorem rootValue_eq_ok {whole : SExpr} {v : ModelValue} (h : rootValue room whole items = .ok v) :
    ∃ s i index p, items = [s, i] ∧ requireInteger .rootIndex i = .ok index ∧
      coefficientsOf room s = .ok p ∧ v = .root index p := by
  unfold rootValue at h
  split at h
  · rename_i s i
    obtain ⟨index, p, hi, hp, rfl⟩ := bind₂_eq_ok_iff.1 h
    exact ⟨s, i, index, p, rfl, hi, hp, rfl⟩
  · cases h

/-- **The values inside a value are read from the terms inside its term**, one by one. -/
theorem forall₂_readFrom {v : ModelValue} (h : ModelValue.decode room s = .ok v) :
    List.Forall₂ (ReadFrom room) s.valueTerms v.parts := by
  fun_induction ModelValue.decode room s generalizing v with
  | case1 t =>
    obtain ⟨q, hq, rfl⟩ := map_eq_ok_iff.1 h
    exact .cons ⟨h, nofun⟩ .nil
  | case2 s ih =>
    obtain ⟨w, hw, rfl⟩ := map_eq_ok_iff.1 h
    exact .cons ⟨h, nofun⟩ (ih hw)
  | case3 a b iha ihb =>
    obtain ⟨v, w, hv, hw, rfl⟩ := bind₂_eq_ok_iff.1 h
    exact .cons ⟨h, nofun⟩ (List.rel_append (iha hv) (ihb hw))
  | case4 parts =>
    obtain ⟨s, i, index, p, rfl, hi, hp, rfl⟩ := rootValue_eq_ok h
    refine .cons ⟨h, fun index' p' hroot => ?_⟩ .nil
    obtain ⟨rfl, rfl⟩ := ModelValue.root.inj hroot
    obtain ⟨terms, ms, rfl, hms, hlaid⟩ := laidOut_of_coefficientsOf hp
    exact ⟨terms, i, ms, rfl, hi, hms, hlaid, hlaid.isSizedFor_iff.trans List.forall_mem_map⟩
  | case5 s h1 h2 h3 h4 =>
    obtain rfl := Except.ok.inj h
    rw [SExpr.valueTerms]
    · refine .cons ⟨?_, nofun⟩ .nil
      rw [ModelValue.decode]
      · exact h1
      · exact h2
      · exact h3
      · exact h4
    · exact h2
    · exact h3

/-- A fault of the degrees of a root object inside the term. -/
def DegreeFaultIn (room : Nat) (s : SExpr) (f : DecodeFault) : Prop :=
  ∃ terms i, .app "root-obj" [.app "+" terms, i] ∈ s.valueTerms ∧ DegreeFault room terms f

/-- **Why a term is no value.** -/
theorem fault_of_decode (h : ModelValue.decode room s = .error f) :
    FaultIn s f ∨ DegreeFaultIn room s f := by
  fun_induction ModelValue.decode room s with
  | case1 t =>
    have h := map_eq_error_iff.1 h
    unfold numeralValue at h
    split at h
    · cases h
    · cases h
      exact .inl (.inl trivial)
    · rename_i hzero
      cases h
      exact .inl (.inr ⟨rfl, dividesByZero_atom hzero⟩)
  | case2 s ih =>
    rcases ih (map_eq_error_iff.1 h) with hf | ⟨terms, i, hmem, hf⟩
    · exact .inl (hf.of_mem (by simp))
    · exact .inr ⟨terms, i, List.mem_cons_of_mem _ hmem, hf⟩
  | case3 a b iha ihb =>
    rcases bind_eq_error_iff.1 h with h | ⟨v, -, h⟩
    · rcases iha h with hf | ⟨terms, i, hmem, hf⟩
      · exact .inl (hf.of_mem (by simp))
      · exact .inr ⟨terms, i, List.mem_cons_of_mem _ (List.mem_append_left _ hmem), hf⟩
    · rcases bind_eq_error_iff.1 h with h | ⟨w, -, h⟩
      · rcases ihb h with hf | ⟨terms, i, hmem, hf⟩
        · exact .inl (hf.of_mem (by simp))
        · exact .inr ⟨terms, i, List.mem_cons_of_mem _ (List.mem_append_right _ hmem), hf⟩
      · cases h
  | case4 parts =>
    unfold rootValue at h
    split at h
    · rename_i s i
      rcases bind_eq_error_iff.1 h with h | ⟨index, -, h⟩
      · exact .inl ((fault_of_requireInteger h).of_mem (by simp))
      · rcases bind_eq_error_iff.1 h with h | ⟨p, -, h⟩
        · rcases fault_of_coefficientsOf h with hf | ⟨terms, rfl, hf⟩
          · exact .inl (hf.of_mem (by simp))
          · exact .inr ⟨terms, i, List.mem_singleton_self _, hf⟩
        · cases h
    · cases h
      exact .inl (.inl trivial)
  | case5 s h1 h2 h3 h4 => cases h

/-- **What decoding ends with.** If a term is a value, the values inside it are read from the terms
    inside the term, and each root object has as many coefficients as the degrees of its monomials
    ask for: one for each degree from zero up to the highest, if no degree is below zero, and more
    if one is. If it is no value, the fault describes the term, unless a numeral in the term is a
    quotient by zero, or degrees of a root object in the term that do not fall are too long to be
    written, or zeros between its monomials do not fit into memory. -/
theorem decoding_ends (room : Nat) (s : SExpr) :
    (∃ v, ModelValue.decode room s = .ok v ∧ List.Forall₂ (ReadFrom room) s.valueTerms v.parts) ∨
    ∃ f, ModelValue.decode room s = .error f ∧ (f.IsReported ∨
      (f = .zeroDenominator ∧ s.DividesByZero) ∨
      (f = .unwritable ∧ DegreeFaultIn room s f) ∨
      ∃ n : Int, room < n ∧ f = .gapTooLarge n ∧ DegreeFaultIn room s f) := by
  cases h : ModelValue.decode room s with
  | ok v => exact .inl ⟨v, rfl, forall₂_readFrom h⟩
  | error f =>
    refine .inr ⟨f, rfl, ?_⟩
    rcases fault_of_decode h with (hf | hf) | ⟨terms, i, hmem, hf⟩
    · exact .inl hf
    · exact .inr (.inl hf)
    · by_cases hreported : f.IsReported
      · exact .inl hreported
      · rcases hf.cases_of_not_isReported hreported with rfl | ⟨n, hn, rfl⟩
        · exact .inr (.inr (.inl ⟨rfl, terms, i, hmem, hf⟩))
        · exact .inr (.inr (.inr ⟨n, hn, rfl, terms, i, hmem, hf⟩))

/-- A quotient by zero is a fault that does not describe the term. And a root object with a degree
    below zero is read, but its coefficients are not one for each degree up to the highest. -/
theorem quotient_by_zero_is_not_reported :
    (ModelValue.decode 1 (.atom "1/0") = .error .zeroDenominator ∧
      ¬ DecodeFault.zeroDenominator.IsReported) ∧
    ModelValue.decode 1 (.app "root-obj" [.app "+" [.atom "x", .app "^" [.atom "x", .atom "-1"]],
      .atom "1"]) = .ok (.root 1 [1, 0, 1]) ∧
    [SExpr.atom "x", .app "^" [.atom "x", .atom "-1"]].mapM monomial = .ok [(1, 1), (1, -1)] ∧
    ¬ Poly.IsSizedFor [1, 0, 1] [1, -1] := by
  refine ⟨⟨by decide +kernel, not_false⟩, by decide +kernel, by decide +kernel, ?_⟩
  rintro ⟨highest, hmem, -, hlength⟩
  rcases List.mem_pair.1 hmem with rfl | rfl <;> simp at hlength

end Credal
