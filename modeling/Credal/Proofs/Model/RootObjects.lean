import Credal.Proofs.Model.Polynomials
import Credal.Proofs.Polynomial.Coefficients

/-!
# Root objects are read as sums of monomials

The monomials of a root object are read one after the other. Each degree has to be below the one
before it, and zeros are filled in for the degrees that are left out, the last ones down to the
constant. So what is read is the polynomial that is the sum of the monomials, and it is read exactly
if the degrees fall and all the zeros fit into memory.

* `zeroRuns`: how many zeros are filled in, place by place;
* `FirstRise`: the first place where degrees do not fall;
* `filled`, `coefficientsAfter_eq_ok_iff`, `coefficientsAfter_eq_error`: what is read after a
  monomial, and why nothing is;
* `Poly.IsSum`, `isSum_cons_filled`: the polynomial that is a sum of monomials;
* `root_objects_are_sums`: a whole root object.
-/

namespace Credal

open Credal.Number

/-! ## 1. Degrees -/

/-- The numbers of zeros between monomials of the given degrees and after the last one; below zero
    where a degree is not below the one before it. -/
def zeroRuns : List Int → List Int
  | [] => []
  | [d] => [d]
  | d :: e :: rest => (d - e - 1) :: zeroRuns (e :: rest)

/-- The degrees fall until `previous`, which the next one is not below. -/
def FirstRise (degrees : List Int) (previous next : Int) : Prop :=
  ∃ before after, degrees = before ++ previous :: next :: after ∧
    (before ++ [previous]).IsChain (· > ·) ∧ previous ≤ next

variable {room : Nat} {d e : Int} {degrees : List Int}

theorem firstRise_head (h : d ≤ e) (degrees : List Int) : FirstRise (d :: e :: degrees) d e :=
  ⟨[], degrees, rfl, List.isChain_singleton d, h⟩

/-- A place behind a degree that falls. -/
theorem FirstRise.cons {a b : Int} (h : FirstRise (e :: degrees) a b) (hfall : d > e) :
    FirstRise (d :: e :: degrees) a b := by
  obtain ⟨before, after, hdegrees, hchain, hrise⟩ := h
  refine ⟨d :: before, after, congrArg (d :: ·) hdegrees, ?_, hrise⟩
  cases before with
  | nil =>
    obtain rfl : e = a := (List.cons.inj hdegrees).1
    exact List.isChain_pair.2 hfall
  | cons e' before =>
    obtain rfl : e = e' := (List.cons.inj hdegrees).1
    exact List.isChain_cons_cons.2 ⟨hfall, hchain⟩

/-! ## 2. What is read -/

/-- The coefficients after a monomial of degree `previous`. -/
def filled (previous : Int) : List (Int × Int) → Poly
  | [] => List.replicate previous.toNat 0
  | (c, d) :: rest => List.replicate (previous - d - 1).toNat 0 ++ c :: filled d rest

theorem eq_of_zeros_eq_error {n : Int} {f : DecodeFault} (h : zeros room n = .error f) :
    room < n ∧ f = .gapTooLarge n := by
  rw [zeros] at h
  split at h
  · cases h
  · rename_i hn
    exact ⟨not_le.1 hn, (Except.error.inj h).symm⟩

/-- **What is read after a monomial**: the other coefficients, if the degrees fall and all zeros fit
    into memory. -/
theorem coefficientsAfter_eq_ok_iff {terms : List SExpr} {ms : List (Int × Int)}
    (hms : terms.mapM monomial = .ok ms) {q : Poly} : coefficientsAfter room d terms = .ok q ↔
      ((d :: ms.map (·.2)).IsChain (· > ·) ∧ ∀ n ∈ zeroRuns (d :: ms.map (·.2)), n ≤ room) ∧
        filled d ms = q := by
  induction terms generalizing d ms q with
  | nil =>
    obtain rfl : [] = ms := Except.ok.inj hms
    rw [coefficientsAfter, zeros_eq_ok_iff, List.map_nil, zeroRuns, List.forall_mem_singleton,
      and_iff_right (List.isChain_singleton d)]
    rfl
  | cons s terms ih =>
    obtain ⟨⟨c, e⟩, ms, hs, hrest, rfl⟩ := mapM_cons_eq_ok_iff.1 hms
    rw [coefficientsAfter_cons_eq hs, List.map_cons, List.isChain_cons_cons, zeroRuns,
      List.forall_mem_cons]
    by_cases hrise : d ≤ e
    · rw [if_pos hrise]
      refine iff_of_false (fun h => ?_) fun h => absurd hrise (not_le.2 h.1.1.1)
      cases h
    · rw [if_neg hrise, bind₂_eq_ok_iff]
      simp only [zeros_eq_ok_iff, ih hrest]
      constructor
      · intro h
        obtain ⟨_, _, ⟨hfits, rfl⟩, ⟨⟨hfall, hgaps⟩, rfl⟩, rfl⟩ := h
        exact ⟨⟨⟨not_le.1 hrise, hfall⟩, hfits, hgaps⟩, rfl⟩
      · intro h
        obtain ⟨⟨⟨-, hfall⟩, hfits, hgaps⟩, rfl⟩ := h
        exact ⟨_, _, ⟨hfits, rfl⟩, ⟨⟨hfall, hgaps⟩, rfl⟩, rfl⟩

/-- **Why nothing is read after a monomial**: the degrees do not fall somewhere, or some zeros
    before that do not fit into memory. -/
theorem coefficientsAfter_eq_error {terms : List SExpr} {ms : List (Int × Int)}
    (hms : terms.mapM monomial = .ok ms) {f : DecodeFault}
    (h : coefficientsAfter room d terms = .error f) :
    (∃ a b, FirstRise (d :: ms.map (·.2)) a b ∧ f = fallFault b a) ∨
      ∃ n ∈ zeroRuns (d :: ms.map (·.2)), room < n ∧ f = .gapTooLarge n := by
  induction terms generalizing d ms with
  | nil =>
    obtain rfl : [] = ms := Except.ok.inj hms
    exact .inr ⟨d, List.mem_singleton_self d, eq_of_zeros_eq_error h⟩
  | cons s terms ih =>
    obtain ⟨⟨c, e⟩, ms, hs, hrest, rfl⟩ := mapM_cons_eq_ok_iff.1 hms
    rw [coefficientsAfter_cons_eq hs] at h
    rw [List.map_cons]
    by_cases hrise : d ≤ e
    · rw [if_pos hrise] at h
      exact .inl ⟨d, e, firstRise_head hrise _, (Except.error.inj h).symm⟩
    · rw [if_neg hrise] at h
      cases hzeros : zeros room (d - e - 1) with
      | error f' =>
        rw [hzeros] at h
        obtain rfl : f' = f := Except.error.inj h
        exact .inr ⟨_, List.mem_cons_self, eq_of_zeros_eq_error hzeros⟩
      | ok gap =>
        cases hlower : coefficientsAfter room e terms with
        | ok q =>
          rw [hzeros, hlower] at h
          cases h
        | error f' =>
          rw [hzeros, hlower] at h
          obtain rfl : f' = f := Except.error.inj h
          rcases ih hrest hlower with ⟨a, b, hplace, hf⟩ | ⟨n, hn, hf⟩
          · exact .inl ⟨a, b, hplace.cons (not_le.1 hrise), hf⟩
          · exact .inr ⟨n, List.mem_cons_of_mem _ hn, hf⟩

/-! ## 3. Sums of monomials -/

/-- The polynomial is the sum of the monomials with the given coefficients and degrees: it has their
    coefficients, zeros for all other degrees, and the value of the sum at every point. -/
structure Poly.IsSum (p : Poly) (ms : List (Int × Int)) : Prop where
  coefficient : ∀ m ∈ ms, p.coefficient m.2.toNat = m.1
  coefficient_other : ∀ k : Nat, (∀ m ∈ ms, m.2 ≠ k) → p.coefficient k = 0
  value : ∀ (K : Type) [CommRing K] (x : K),
    p.valueIn x = (ms.map fun m => (m.1 : K) * x ^ m.2.toNat).sum

variable {ms : List (Int × Int)} {p : Poly} {c : Int}

theorem isSum_nil : Poly.IsSum [] [] where
  coefficient := nofun
  coefficient_other _ _ := rfl
  value _ _ _ := rfl

/-- Zeros in front. -/
theorem Poly.IsSum.zeros_append (h : p.IsSum ms) (n : Nat) :
    Poly.IsSum (List.replicate n 0 ++ p) ms where
  coefficient m hm := (coefficient_zeros_append n p _).trans (h.coefficient m hm)
  coefficient_other k hk := (coefficient_zeros_append n p k).trans (h.coefficient_other k hk)
  value K _ x := (valueIn_zeros_append x n p).trans (h.value K x)

/-- A monomial in front, of a degree above all others. -/
theorem Poly.IsSum.cons (h : p.IsSum ms) (hlength : p.length = d.toNat) (hd : 0 ≤ d)
    (hms : ∀ m ∈ ms, 0 ≤ m.2 ∧ m.2 < d) : Poly.IsSum (c :: p) ((c, d) :: ms) where
  coefficient := by
    refine List.forall_mem_cons.2 ⟨?_, fun m hm => ?_⟩
    · rw [coefficient_cons, if_pos hlength.symm]
    · have hne : m.2.toNat ≠ p.length := by
        have := hms m hm
        omega
      rw [coefficient_cons, if_neg hne, h.coefficient m hm]
  coefficient_other k hk := by
    obtain ⟨hfirst, hrest⟩ := List.forall_mem_cons.1 hk
    have hne : k ≠ p.length := by omega
    rw [coefficient_cons, if_neg hne, h.coefficient_other k hrest]
  value K _ x := by
    rw [valueIn_cons, h.value K x, hlength, List.map_cons, List.sum_cons]

theorem length_filled (hfall : (d :: ms.map (·.2)).IsChain (· > ·)) (hd : 0 ≤ d)
    (hms : ∀ m ∈ ms, 0 ≤ m.2) : (filled d ms).length = d.toNat := by
  induction ms generalizing d with
  | nil => rw [filled, List.length_replicate]
  | cons m ms ih =>
    obtain ⟨hm, hrest⟩ := List.forall_mem_cons.1 hms
    rw [List.map_cons, List.isChain_cons_cons] at hfall
    obtain ⟨hstep, hfall⟩ := hfall
    rw [filled, List.length_append, List.length_replicate, List.length_cons, ih hfall hm hrest]
    omega

/-- **What is read is the sum of the monomials**, if their degrees fall. -/
theorem isSum_cons_filled (hfall : (d :: ms.map (·.2)).IsChain (· > ·)) (hd : 0 ≤ d)
    (hms : ∀ m ∈ ms, 0 ≤ m.2) : Poly.IsSum (c :: filled d ms) ((c, d) :: ms) := by
  induction ms generalizing c d with
  | nil =>
    have hzeros := isSum_nil.zeros_append d.toNat
    rw [List.append_nil] at hzeros
    exact hzeros.cons (length_filled hfall hd hms) hd nofun
  | cons m ms ih =>
    have hbelow := (List.pairwise_cons.1 (List.isChain_iff_pairwise.1 hfall)).1
    obtain ⟨hm, hrest⟩ := List.forall_mem_cons.1 hms
    have hlower := ih (c := m.1) (List.isChain_cons_cons.1 hfall).2 hm hrest
    refine (hlower.zeros_append _).cons (length_filled hfall hd hms) hd fun m' hm' => ?_
    exact ⟨hms m' hm', hbelow m'.2 (List.mem_map_of_mem hm')⟩

/-! ## 4. Root objects -/

/-- What is read from a root object after its first monomial and its index. -/
theorem decode_rootObject {t s : SExpr} {index : Int} (ht : monomial t = .ok (c, d))
    (hs : requireInteger .rootIndex s = .ok index) (rest : List SExpr) :
    ModelValue.decode room (.app "root-obj" [.app "+" (t :: rest), s]) =
      (do .ok (.root index (c :: (← coefficientsAfter room d rest))) :
        Except DecodeFault ModelValue) := by
  have hsum : coefficientsOf room (.app "+" (t :: rest)) =
      (do .ok (c :: (← coefficientsAfter room d rest)) : Except DecodeFault Poly) := by
    show (monomial t >>= _) = _
    rw [ht]
    rfl
  show (requireInteger .rootIndex s >>= _) = _
  rw [hs]
  show (coefficientsOf room (.app "+" (t :: rest)) >>= _) = _
  rw [hsum]
  cases coefficientsAfter room d rest with
  | error f => rfl
  | ok lower => rfl

/-- **Root objects are read as sums of monomials.** Given monomials with degrees that are not
    negative, and an index, there is a result exactly if the degrees fall and the zeros between the
    monomials fit into memory. The result is the polynomial that is the sum of the monomials, with
    one coefficient for each degree up to the highest. Otherwise the fault names the first degree
    that does not fall and the one before it, unless one of them is too long to be written, or there
    is no memory for some zeros. -/
theorem root_objects_are_sums (room : Nat) {terms : List SExpr} {s : SExpr} {index : Int}
    (hterms : terms.mapM monomial = .ok ((c, d) :: ms)) (hnonneg : ∀ m ∈ (c, d) :: ms, 0 ≤ m.2)
    (hs : requireInteger .rootIndex s = .ok index) :
    let decoded := ModelValue.decode room (.app "root-obj" [.app "+" terms, s])
    let degrees := d :: ms.map (·.2)
    ((∃ v, decoded = .ok v) ↔
      degrees.Pairwise (· > ·) ∧ ∀ n ∈ zeroRuns degrees, n ≤ room) ∧
    (∀ v, decoded = .ok v →
      ∃ p, v = .root index p ∧ (p.length : Int) = d + 1 ∧ p.IsSum ((c, d) :: ms)) ∧
    ∀ f, decoded = .error f →
      (∃ a b, FirstRise degrees a b ∧ f = fallFault b a) ∨
        ∃ n ∈ zeroRuns degrees, room < n ∧ f = .gapTooLarge n := by
  cases terms with
  | nil => cases hterms
  | cons t rest =>
    obtain ⟨m, ms, ht, hrest, hms⟩ := mapM_cons_eq_ok_iff.1 hterms
    obtain ⟨rfl, rfl⟩ := List.cons.inj hms
    obtain ⟨hd, hlower⟩ := List.forall_mem_cons.1 hnonneg
    intro decoded degrees
    have hdecoded : decoded = _ := decode_rootObject ht hs rest
    rw [hdecoded]
    refine ⟨?_, ?_, ?_⟩
    · rw [exists_bind_eq_ok_iff, ← List.isChain_iff_pairwise]
      simp only [coefficientsAfter_eq_ok_iff hrest, exists_and_left, exists_eq', and_true, degrees]
    · intro v hv
      obtain ⟨lower, hread, rfl⟩ := bind_eq_ok_iff.1 hv
      obtain ⟨⟨hfall, -⟩, rfl⟩ := (coefficientsAfter_eq_ok_iff hrest).1 hread
      refine ⟨_, rfl, ?_, isSum_cons_filled hfall hd hlower⟩
      rw [List.length_cons, length_filled hfall hd hlower]
      omega
    · intro f hf
      cases hread : coefficientsAfter room d rest with
      | ok lower =>
        rw [hread] at hf
        cases hf
      | error f' =>
        rw [hread] at hf
        obtain rfl : f' = f := Except.error.inj hf
        exact coefficientsAfter_eq_error hrest hread

/-- The cubic `2 x ^ 3 + x`, whose square and constant are left out. -/
theorem root_objects_are_sums_of_cubic :
    ModelValue.decode 1 (.app "root-obj"
        [.app "+" [.app "*" [.atom "2", .app "^" [.atom "x", .atom "3"]], .atom "x"], .atom "1"]) =
      .ok (.root 1 [2, 0, 1, 0]) ∧
    Poly.IsSum [2, 0, 1, 0] [(2, 3), (1, 1)] := by
  have hterms : [SExpr.app "*" [.atom "2", .app "^" [.atom "x", .atom "3"]], .atom "x"].mapM
      monomial = .ok [(2, 3), (1, 1)] := by decide +kernel
  have hindex : requireInteger .rootIndex (.atom "1") = .ok 1 := by decide +kernel
  have hdecoded : ModelValue.decode 1 (.app "root-obj"
      [.app "+" [.app "*" [.atom "2", .app "^" [.atom "x", .atom "3"]], .atom "x"], .atom "1"]) =
      .ok (.root 1 [2, 0, 1, 0]) := by decide +kernel
  obtain ⟨-, hsum, -⟩ := root_objects_are_sums 1 hterms (by decide) hindex
  obtain ⟨p, hp, -, hsum⟩ := hsum _ hdecoded
  obtain ⟨-, rfl⟩ := ModelValue.root.inj hp
  exact ⟨hdecoded, hsum⟩

/-- The shortest power of ten that is too long to be written is read from its exponent. -/
theorem requireInteger_long (role : IntegerRole) :
    requireInteger role (.atom "1e4300") = .ok (10 ^ digitLimit) := by
  have hnumeral : unsigned? false "1e4300".toList = some ⟨false, 1, digitLimit, 4⟩ := by
    decide +kernel
  have hsign : sign (Text.trim "1e4300".toList) = (false, "1e4300".toList) := by decide +kernel
  have hvalue : Numeral.toRat ⟨false, 1, digitLimit, 4⟩ = ((10 ^ digitLimit : Int) : ℚ) := by
    rw [Numeral.toRat_eq, zpow_natCast, Int.cast_pow]
    exact one_mul _
  have hread : readRational "1e4300" = .ok ((10 ^ digitLimit : Int) : ℚ) := by
    unfold readRational
    rw [hsign]
    simp only [hnumeral, hvalue]
    exact if_pos (by decide)
  rw [requireInteger, integerValue?, hread]
  simp only [Rat.den_intCast, Rat.num_intCast]
  rfl

/-- Degrees that do not fall are no fault of the term if one of them is too long to be written. -/
theorem long_degree_is_not_reported :
    [SExpr.atom "x", .app "^" [.atom "x", .atom "1e4300"]].mapM monomial =
      .ok [(1, 1), (1, 10 ^ digitLimit)] ∧
    requireInteger .rootIndex (.atom "1") = .ok 1 ∧
    ¬ [1, (10 ^ digitLimit : Int)].Pairwise (· > ·) ∧
    ∀ room, ¬ ∃ e previous, ModelValue.decode room (.app "root-obj"
      [.app "+" [.atom "x", .app "^" [.atom "x", .atom "1e4300"]], .atom "1"]) =
        .error (.notFalling e previous) := by
  have hx : monomial (.atom "x") = .ok (1, 1) := rfl
  have hpower : monomial (.app "^" [.atom "x", .atom "1e4300"]) = .ok (1, 10 ^ digitLimit) := by
    show (some <$> requireInteger .exponent (.atom "1e4300") >>= _) = _
    rw [requireInteger_long]
    rfl
  have hindex : requireInteger .rootIndex (.atom "1") = .ok 1 := by decide +kernel
  have hrise : 1 ≤ (10 ^ digitLimit : Int) := one_le_pow₀ (by decide)
  have hlong : isWritable (10 ^ digitLimit) = false := by
    have hten : (10 : Int).natAbs = 10 := rfl
    rw [← Bool.not_eq_true, isWritable_iff, Int.natAbs_pow, hten]
    exact lt_irrefl _
  refine ⟨?_, hindex, ?_, fun room => ?_⟩
  · exact mapM_cons_eq_ok_iff.2
      ⟨_, _, hx, mapM_cons_eq_ok_iff.2 ⟨_, _, hpower, List.mapM_nil, rfl⟩, rfl⟩
  · rw [List.pairwise_pair, gt_iff_lt, not_lt]
    exact hrise
  · intro h
    obtain ⟨e, previous, h⟩ := h
    rw [decode_rootObject hx hindex, coefficientsAfter_cons_eq hpower, if_pos hrise, fallFault,
      hlong, Bool.false_and] at h
    cases h

end Credal
