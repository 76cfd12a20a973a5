import Credal.Proofs.Polynomial.Signs
import Credal.Proofs.Polynomial.Squarefree
import Mathlib.Topology.LocallyConstant.Basic

/-!
# Sturm's theorem

The sign changes along the chain of a squarefree polynomial, and the roots that are at most some
number, are together as many at every number: they change at no number. Far to the left there are
sign changes only, so that the sign changes at any number tell how many roots lie left of it.

* `Poly.HasSimpleRoots`: what is asked of the first polynomial;
* `Poly.Remainders`: what follows two polynomials in a chain;
* `Remainders.eventually_variations`: the sign changes near a number;
* `eventually_count`: the sign changes and the roots near a number;
* `chainRootsUpTo_eq`, `chainRootCount_eq`: **Sturm's theorem**.
-/

namespace Credal.Poly

open Filter Topology

/-! ## 1. Chains -/

/-- The polynomial has no multiple real roots. -/
structure HasSimpleRoots (f : Poly) : Prop where
  leading_ne_zero : f.leading ≠ 0
  derivative_ne_zero : ∀ x : ℝ, f.valueIn x = 0 → f.derivative.valueIn x ≠ 0

/-- The member of a chain after two members. -/
def following (p q : Poly) : Poly := (remainder p q).trim.primitive.map (-·)

/-- What follows `p` in a chain, from `q` on. -/
inductive Remainders : Poly → Poly → List Poly → Prop
  | last (p : Poly) : Remainders p [] []
  | next {p q : Poly} {l : List Poly} (hq : q.leading ≠ 0) (hl : Remainders q (following p q) l) :
    Remainders p q (q :: l)

variable {p q f : Poly} {l : List Poly} {c x : ℝ}

theorem leading_map_neg (p : Poly) : leading (p.map (-·)) = -p.leading := by
  cases p <;> rfl

theorem isTrimmed_following (p q : Poly) : (following p q).IsTrimmed := by
  rcases isTrimmed_primitive (isTrimmed_trim (remainder p q)) with hnil | hlead
  · exact .inl (List.map_eq_nil_iff.2 hnil)
  · exact .inr (by rw [following, leading_map_neg]; exact neg_ne_zero.2 hlead)

theorem length_following_lt (hq : q ≠ []) : (following p q).length < q.length := by
  rw [following, List.length_map, length_primitive]
  exact (length_trim_le _).trans_lt (length_remainder_lt hq p)

/-- **At a root of a member** its neighbours have opposite signs. -/
theorem signIn_following (hq : q.leading ≠ 0) (hroot : q.valueIn c = 0) :
    (following p q).signIn c = -p.signIn c := by
  obtain ⟨a, ha, k, hk⟩ := exists_remainder ℝ hq p
  obtain ⟨g, hg, hprimitive⟩ := exists_poly_primitive ℝ (remainder p q).trim
  have hneg : (following p q).valueIn c = -(remainder p q).trim.primitive.valueIn c := by
    rw [← eval_poly, following, poly_map_neg, Polynomial.eval_neg, eval_poly]
  -- The value of the remainder is a positive multiple of that of the dividend.
  have hvalue : (a : ℝ) * p.valueIn c = g * (remainder p q).trim.primitive.valueIn c := by
    have heval := congrArg (Polynomial.eval c) hk
    rw [← poly_trim (remainder p q), hprimitive] at heval
    simpa [eval_poly, hroot] using heval
  have hsign := congrArg SignType.sign hvalue
  rw [sign_mul, sign_mul, sign_pos (Int.cast_pos.2 ha), sign_pos (Int.cast_pos.2 hg), one_mul,
    one_mul] at hsign
  rw [signIn, signIn, hneg, Left.sign_neg, ← hsign]
  simp

theorem remainders_chainWithin {fuel : Nat} (hq : q.IsTrimmed) (hfuel : q.length < fuel) :
    Remainders p q (chainWithin fuel p q) := by
  induction fuel generalizing p q with
  | zero => exact absurd hfuel (Nat.not_lt_zero _)
  | succ fuel ih =>
    rcases q with _ | ⟨d, q⟩
    · exact .last p
    · refine .next (hq.leading_ne_zero (List.cons_ne_nil d q)) (ih (isTrimmed_following p _) ?_)
      exact (length_following_lt (List.cons_ne_nil d q)).trans_le (Nat.le_of_lt_succ hfuel)

theorem isTrimmed_derivative (hp : p.leading ≠ 0) : p.derivative.IsTrimmed := by
  rcases p with _ | ⟨c, _ | ⟨d, p⟩⟩
  · exact absurd rfl hp
  · exact isTrimmed_nil
  · have hlength : ((d :: p).length : Int) ≠ 0 := Int.natCast_ne_zero.2 (Nat.succ_ne_zero _)
    exact .inr (mul_ne_zero hp hlength)

theorem exists_chain (hf : f.leading ≠ 0) :
    ∃ l, f.chain = f :: l ∧ Remainders f f.derivative.primitive l := by
  refine ⟨_, rfl, remainders_chainWithin (isTrimmed_primitive (isTrimmed_derivative hf)) ?_⟩
  rw [length_primitive, length_derivative]
  exact Nat.sub_one_lt_of_lt (List.length_pos_of_ne_nil (ne_nil_of_leading_ne_zero hf))

theorem Remainders.leading_ne_zero (h : Remainders p q l) : ∀ r ∈ l, r.leading ≠ 0 := by
  induction h with
  | last p => exact fun r hr => absurd hr List.not_mem_nil
  | next hq hl ih => exact List.forall_mem_cons.2 ⟨hq, ih⟩

/-! ## 2. Sign changes near a number -/

/-- The sign changes of a list of polynomials at a real number. -/
noncomputable def variationsIn (l : List Poly) (x : ℝ) : Nat := variations (l.map (·.signIn x))

theorem variationsIn_cons_of_root (h : p.valueIn x = 0) (l : List Poly) :
    variationsIn (p :: l) x = variationsIn l x := by
  rw [variationsIn, List.map_cons, signIn_eq_zero_iff.2 h]
  exact variations_zero_cons _

theorem variationsIn_cons_cons (hp : p.valueIn x ≠ 0) (hq : q.valueIn x ≠ 0) (l : List Poly) :
    variationsIn (p :: q :: l) x =
      (if p.signIn x = q.signIn x then 0 else 1) + variationsIn (q :: l) x :=
  variations_cons_cons (signIn_ne_zero_iff.2 hp) (signIn_ne_zero_iff.2 hq) _

/-- **The sign changes near a number** are those at the number. A first polynomial that has a root
    there is left out. -/
theorem Remainders.eventually_variations (h : Remainders p q l) :
    (p.valueIn c ≠ 0 → ∀ᶠ x in 𝓝 c, variationsIn (p :: l) x = variationsIn (p :: l) c) ∧
      (p.valueIn c = 0 → q.valueIn c ≠ 0 → ∀ᶠ x in 𝓝 c, variationsIn l x = variationsIn l c) := by
  induction h with
  | last p =>
    refine ⟨fun _ => .of_forall fun x => ?_, fun _ _ => .of_forall fun x => rfl⟩
    simp only [variationsIn, List.map_cons, List.map_nil, variations_singleton]
  | @next p q l hq hl ih =>
    obtain ⟨hregular, hroot⟩ := ih
    refine ⟨fun hp => ?_, fun _ hqc => hregular hqc⟩
    by_cases hqc : q.valueIn c = 0
    · -- The neighbours of a member that vanishes keep opposite signs.
      have hopposite := signIn_following (p := p) hq hqc
      have hnext : (following p q).valueIn c ≠ 0 := by
        rw [← signIn_ne_zero_iff, hopposite, neg_ne_zero]
        exact signIn_ne_zero_iff.2 hp
      generalize following p q = r at hl hopposite hnext hroot
      cases hl with
      | last => exact absurd rfl hnext
      | next hr hl =>
        rename_i l
        have hcross : ∀ x, p.signIn x = p.signIn c → r.signIn x = r.signIn c →
            variationsIn (p :: q :: r :: l) x = 1 + variationsIn (r :: l) x := by
          intro x hpx hrx
          have hs : p.signIn x ≠ 0 := by
            rw [hpx]
            exact signIn_ne_zero_iff.2 hp
          have hcases := signIn_cases hp q x
          rw [← hpx] at hcases
          rw [variationsIn, variationsIn, List.map_cons, List.map_cons, List.map_cons, hrx,
            hopposite, ← hpx]
          exact variations_cross hs hcases _
        filter_upwards [hroot hqc hnext, eventually_signIn_eq hp, eventually_signIn_eq hnext]
          with x hx hpx hrx
        rw [hcross x hpx hrx, hcross c rfl rfl, hx]
    · filter_upwards [hregular hqc, eventually_signIn_eq hp, eventually_signIn_eq hqc]
        with x hx hpx hqx
      rw [variationsIn_cons_cons (valueIn_ne_zero_of_signIn_eq hpx hp)
        (valueIn_ne_zero_of_signIn_eq hqx hqc), variationsIn_cons_cons hp hqc, hx, hpx, hqx]

/-! ## 3. Roots near a number -/

/-- The number of distinct real roots that are at most a number. -/
noncomputable def rootsAtMost (f : Poly) (x : ℝ) : Nat := (f.realRoots.filter (· ≤ x)).card

/-- Near a number, only the number itself may be a root. -/
theorem eventually_rootsAtMost (f : Poly) (c : ℝ) : ∀ᶠ x in 𝓝 c,
    (c ≤ x → f.rootsAtMost x = f.rootsAtMost c) ∧
      (x < c → f.rootsAtMost x + (if c ∈ f.realRoots then 1 else 0) = f.rootsAtMost c) := by
  have hside : ∀ᶠ x in 𝓝 c, ∀ r ∈ f.realRoots, r ≠ c → (r ≤ x ↔ r ≤ c) := by
    refine (eventually_all_finset _).2 fun r _ => ?_
    rcases lt_trichotomy r c with hlt | heq | hgt
    · filter_upwards [eventually_gt_nhds hlt] with x hx _
      exact iff_of_true hx.le hlt.le
    · exact .of_forall fun x hne => absurd heq hne
    · filter_upwards [eventually_lt_nhds hgt] with x hx _
      exact iff_of_false hx.not_ge hgt.not_ge
  filter_upwards [hside] with x hx
  refine ⟨fun hle => congrArg Finset.card (Finset.filter_congr fun r hr => ?_), fun hlt => ?_⟩
  · rcases eq_or_ne r c with rfl | hne
    · exact iff_of_true hle le_rfl
    · exact hx r hr hne
  · have herase : f.realRoots.filter (· ≤ x) = (f.realRoots.filter (· ≤ c)).erase c := by
      ext r
      rw [Finset.mem_erase, Finset.mem_filter, Finset.mem_filter]
      constructor
      · rintro ⟨hr, hle⟩
        exact ⟨(hle.trans_lt hlt).ne, hr, hle.trans hlt.le⟩
      · rintro ⟨hne, hr, hle⟩
        exact ⟨hr, (hx r hr hne).2 hle⟩
    rw [rootsAtMost, rootsAtMost, herase]
    split
    · rename_i hc
      exact Finset.card_erase_add_one (Finset.mem_filter.2 ⟨hc, le_rfl⟩)
    · rename_i hc
      rw [Finset.erase_eq_of_notMem (fun h => hc (Finset.mem_filter.1 h).1), add_zero]

/-! ## 4. Sturm's theorem -/

theorem signIn_primitive (p : Poly) (x : ℝ) : p.primitive.signIn x = p.signIn x := by
  obtain ⟨g, hg, hprimitive⟩ := exists_poly_primitive ℝ p
  have hvalue : p.valueIn x = g * p.primitive.valueIn x := by
    rw [← eval_poly, hprimitive, Polynomial.eval_mul, Polynomial.eval_C, eval_poly]
  rw [signIn, signIn, hvalue, sign_mul, sign_pos (Int.cast_pos.2 hg), one_mul]

/-- The sign changes of polynomials that have the signs that they have far away. -/
theorem variationsIn_of_end {left : Bool} (hx : ∀ p ∈ l, p.signIn x = signAtEnd left p) :
    variationsIn l x = endVariations left l :=
  congrArg variations (List.map_congr_left hx)

section Count

variable (hf : f.HasSimpleRoots)

include hf

/-- **What is counted does not change at any number**: where a root is left behind, a sign change
    is lost. -/
theorem eventually_count (c : ℝ) : ∀ᶠ x in 𝓝 c,
    variationsIn f.chain x + f.rootsAtMost x = variationsIn f.chain c + f.rootsAtMost c := by
  obtain ⟨l, hchain, hl⟩ := exists_chain hf.leading_ne_zero
  obtain ⟨hregular, hroot⟩ := hl.eventually_variations (c := c)
  rw [hchain]
  by_cases hc : f.valueIn c = 0
  · have hderivative := hf.derivative_ne_zero c hc
    have hprimitive : f.derivative.primitive.valueIn c ≠ 0 := by
      rw [← signIn_ne_zero_iff, signIn_primitive]
      exact signIn_ne_zero_iff.2 hderivative
    filter_upwards [hroot hc hprimitive, eventually_signIn_of_root hc hderivative,
      eventually_signIn_eq hprimitive, eventually_rootsAtMost f c] with x hx hsign hqx hcount
    rw [variationsIn_cons_of_root hc]
    rw [if_pos ((mem_realRoots hf.leading_ne_zero).2 hc)] at hcount
    generalize hq : f.derivative.primitive = q at hl hprimitive hqx
    cases hl with
    | last => exact absurd rfl hprimitive
    | next hlead hl =>
      have hqc : f.derivative.signIn c = q.signIn c := by rw [← hq, signIn_primitive]
      rw [hqc, ← hqx] at hsign
      have hqne := valueIn_ne_zero_of_signIn_eq hqx hprimitive
      have hqsign : q.signIn x ≠ 0 := signIn_ne_zero_iff.2 hqne
      rcases lt_trichotomy x c with hlt | rfl | hgt
      · have hopposite := hsign.1 hlt
        have hfne : f.valueIn x ≠ 0 := by
          rw [← signIn_ne_zero_iff, hopposite]
          exact neg_ne_zero.2 hqsign
        have hne : ¬ f.signIn x = q.signIn x := by
          rw [hopposite]
          exact fun h => hqsign (neg_eq_self.1 h)
        rw [variationsIn_cons_cons hfne hqne, if_neg hne, hx, ← hcount.2 hlt]
        ring
      · rw [variationsIn_cons_of_root hc]
      · have hsame := hsign.2 hgt
        have hfne : f.valueIn x ≠ 0 := by
          rw [← signIn_ne_zero_iff, hsame]
          exact hqsign
        rw [variationsIn_cons_cons hfne hqne, if_pos hsame, hx, hcount.1 hgt.le, zero_add]
  · filter_upwards [hregular hc, eventually_rootsAtMost f c] with x hx hcount
    rw [if_neg (fun h => hc ((mem_realRoots hf.leading_ne_zero).1 h)), add_zero] at hcount
    rcases lt_or_ge x c with hlt | hge
    · rw [hx, hcount.2 hlt]
    · rw [hx, hcount.1 hge]

theorem chain_leading_ne_zero : ∀ p ∈ f.chain, p.leading ≠ 0 := by
  obtain ⟨l, hchain, hl⟩ := exists_chain hf.leading_ne_zero
  rw [hchain]
  exact List.forall_mem_cons.2 ⟨hf.leading_ne_zero, hl.leading_ne_zero⟩

/-- At every number, sign changes and roots are as many as the sign changes far to the left. -/
theorem count_eq (x : ℝ) :
    variationsIn f.chain x + f.rootsAtMost x = endVariations true f.chain := by
  have hconstant : IsLocallyConstant fun x => variationsIn f.chain x + f.rootsAtMost x :=
    (IsLocallyConstant.iff_eventually_eq _).2 (eventually_count hf)
  have hfar : ∀ᶠ y in atBot, (∀ p ∈ f.chain.toFinset, p.signIn y = signAtEnd true p) ∧
      ∀ r ∈ f.realRoots, y < r := by
    refine .and ((eventually_all_finset _).2 fun p hp => ?_)
      ((eventually_all_finset _).2 fun r _ => eventually_lt_atBot r)
    exact eventually_signIn_atBot (chain_leading_ne_zero hf p (List.mem_toFinset.1 hp))
  obtain ⟨y, hsigns, hroots⟩ := hfar.exists
  have hnone : f.rootsAtMost y = 0 :=
    Finset.card_eq_zero.2 (Finset.filter_eq_empty_iff.2 fun r hr => (hroots r hr).not_ge)
  have hend := variationsIn_of_end fun p hp => hsigns p (List.mem_toFinset.2 hp)
  have hsame := hconstant.apply_eq_of_preconnectedSpace x y
  rw [hnone, hend, add_zero] at hsame
  exact hsame

/-- **Sturm's theorem**: the roots that are at most a quotient. -/
theorem chainRootsUpTo_eq (num : Int) {den : Int} (hden : 0 < den) :
    chainRootsUpTo f.chain num den = f.rootsAtMost (num / den) := by
  have hsigns : f.chain.map (·.signAt num den) = f.chain.map (·.signIn (num / den)) :=
    List.map_congr_left fun p _ => signAt_eq p num hden
  rw [chainRootsUpTo, hsigns, ← count_eq hf (num / den)]
  exact Nat.add_sub_cancel_left _ _

/-- **Sturm's theorem**: all real roots. -/
theorem chainRootCount_eq : chainRootCount f.chain = f.realRoots.card := by
  have hfar : ∀ᶠ y in atTop, (∀ p ∈ f.chain.toFinset, p.signIn y = signAtEnd false p) ∧
      ∀ r ∈ f.realRoots, r < y := by
    refine .and ((eventually_all_finset _).2 fun p hp => ?_)
      ((eventually_all_finset _).2 fun r _ => eventually_gt_atTop r)
    exact eventually_signIn_atTop (chain_leading_ne_zero hf p (List.mem_toFinset.1 hp))
  obtain ⟨y, hsigns, hroots⟩ := hfar.exists
  have hall : f.rootsAtMost y = f.realRoots.card :=
    congrArg Finset.card (Finset.filter_eq_self.2 fun r hr => (hroots r hr).le)
  have hend := variationsIn_of_end fun p hp => hsigns p (List.mem_toFinset.2 hp)
  rw [chainRootCount, ← count_eq hf y, hend, hall]
  exact Nat.add_sub_cancel_left _ _

end Count

end Credal.Poly
