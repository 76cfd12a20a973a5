import Credal.Proofs.Model.Decimals
import Credal.Proofs.Steps

/-!
# Polynomials of root objects

A polynomial is written as the sum of its monomials without those that are zero, and what is read
are its coefficients from the first that is not zero, the zeros between two monomials filled in.
Nothing else is ever read, and nothing at all if a coefficient or a degree has too many digits or
if the zeros between two monomials do not fit into memory.

* `monomialTerms?_eq`: the monomials that are written;
* `monomial_integerTerm`, `monomial_productTerm`: the monomials that are read;
* `coefficientsAfter_cons_eq`: what is read from a monomial behind another one;
* `GapsFit`, `coefficientsAfter_monomialTerms`: the zeros that are filled in;
* `Poly.normal`: the coefficients from the first that is not zero;
* `coefficientsOf_monomialTerms`: the coefficients that are read.
-/

namespace Credal

open Credal.Number Credal.SExpr

/-! ## 1. What is written -/

/-- An integer as a term. -/
def integerTerm (i : Int) : SExpr :=
  if i < 0 then .app "-" [.atom (intText (-i))] else .atom (intText i)

/-- The monomial of a coefficient and a degree. -/
def productTerm (c : Int) (e : Nat) : SExpr := .app "*" [integerTerm c, powerTerm e]

/-- The monomials of a polynomial that are not zero, and its constant. -/
def monomialTerms : Poly → List SExpr
  | [] => []
  | [c] => [integerTerm c]
  | c :: d :: p =>
    if c = 0 then monomialTerms (d :: p) else productTerm c (p.length + 1) :: monomialTerms (d :: p)

theorem isWritable_neg (i : Int) : isWritable (-i) = isWritable i := by
  rw [isWritable, isWritable, Int.natAbs_neg]

theorem isWritable_of_le {m n : Nat} (h : m ≤ n) (hn : isWritable n = true) :
    isWritable m = true :=
  isWritable_iff.2 (Nat.lt_of_le_of_lt h (isWritable_iff.1 hn))

theorem isWritable_zero : isWritable 0 = true := isWritable_of_lt_ten (by decide)

theorem integerTerm?_eq (i : Int) :
    integerTerm? i = if isWritable i then some (integerTerm i) else none := by
  by_cases h : isWritable i = true
  · rw [integerTerm?, writeInteger?, writeInteger?, isWritable_neg, if_pos h, if_pos h, if_pos h,
      integerTerm]
    split
    · rfl
    · rfl
  · rw [integerTerm?, writeInteger?, writeInteger?, isWritable_neg, if_neg h, if_neg h, if_neg h]
    split
    · rfl
    · rfl

theorem productTerm?_eq (c : Int) (e : Nat) :
    productTerm? c e = if isWritable c then some (productTerm c e) else none := by
  rw [productTerm?, integerTerm?_eq]
  split
  · rfl
  · rfl

/-- **A polynomial is written if its coefficients have few enough digits.** -/
theorem monomialTerms?_eq (p : Poly) :
    monomialTerms? p = if p.all isWritable then some (monomialTerms p) else none := by
  fun_induction monomialTerms p with
  | case1 => rfl
  | case2 c =>
    rw [monomialTerms?, integerTerm?_eq, List.all_cons, List.all_nil, Bool.and_true]
    split
    · rfl
    · rfl
  | case3 d p ih =>
    have hall : (0 :: d :: p).all isWritable = (d :: p).all isWritable := by
      rw [List.all_cons, isWritable_zero, Bool.true_and]
    rw [monomialTerms?, ih, hall]
    split
    · rfl
    · rfl
  | case4 c d p hc ih =>
    have hall : (c :: d :: p).all isWritable = (isWritable c && (d :: p).all isWritable) := rfl
    rw [monomialTerms?, ih, productTerm?_eq, hall]
    cases (d :: p).all isWritable with
    | false => rw [Bool.and_false]; rfl
    | true =>
      rw [Bool.and_true]
      refine (if_neg hc).trans ?_
      split
      · rfl
      · rfl

/-! ## 2. What is read from a monomial -/

/-- No integer is the variable. -/
theorem intText_ne_variable (i : Int) : intText i ≠ "x" := by
  intro h
  have hchars := congrArg String.toList h
  rw [toList_intText_eq] at hchars
  have hmem : 'x' ∈ signText (decide (i < 0)) ++ natText i.natAbs := by
    rw [hchars]
    exact List.mem_singleton.2 rfl
  rcases List.mem_append.1 hmem with hsign | hdigit
  · unfold signText at hsign
    split at hsign
    · exact absurd (List.mem_singleton.1 hsign) (by decide)
    · exact List.not_mem_nil hsign
  · exact absurd (isDigit_of_mem_natText hdigit) (by decide)

theorem integerValue?_intText (i : Int) :
    integerValue? (.atom (intText i)) = .ok (if isWritable i then some i else none) := by
  rw [integerValue?, readRational_intText]
  by_cases h : isWritable i = true
  · rw [if_pos h, if_pos h]
    show Except.ok (if (i : ℚ).den = 1 then some (i : ℚ).num else none) = _
    rw [Rat.den_intCast, if_pos rfl, Rat.num_intCast]
  · rw [if_neg h, if_neg h]

/-- **An integer is read if it has few enough digits.** -/
theorem requireInteger_intText (role : IntegerRole) (i : Int) :
    requireInteger role (.atom (intText i)) =
      if isWritable i then .ok i else .error (.notInteger role (.atom (intText i))) := by
  rw [requireInteger, integerValue?_intText]
  by_cases h : isWritable i = true
  · rw [if_pos h, if_pos h]
    rfl
  · rw [if_neg h, if_neg h]
    rfl

theorem powerDegree?_intText (i : Int) : powerDegree? (.atom (intText i)) = .ok none := by
  unfold powerDegree?
  split
  · rename_i h
    exact absurd (SExpr.atom.inj h) (intText_ne_variable i)
  · rename_i h
    cases h
  · rfl

theorem powerDegree?_powerTerm (e : Nat) : powerDegree? (powerTerm e) =
    if isWritable e then .ok (some (e : Int))
    else .error (.notInteger .exponent (.atom (intText e))) := by
  by_cases he : e = 1
  · have hone : isWritable ((1 : Nat) : Int) = true := isWritable_of_lt_ten (by decide)
    rw [he, if_pos hone]
    rfl
  · rw [powerTerm, if_neg he]
    show some <$> requireInteger .exponent (.atom (intText e)) = _
    rw [requireInteger_intText]
    split
    · rfl
    · rfl

variable {room : Nat} {c : Int}

theorem coefficient_integerTerm (hc : isWritable c = true) :
    coefficient (integerTerm c) = .ok c := by
  rw [integerTerm]
  split
  · show (do .ok (-(← requireInteger .coefficient (.atom (intText (-c))))) : Except _ _) = _
    rw [requireInteger_intText, isWritable_neg, if_pos hc]
    show Except.ok (- -c) = _
    rw [neg_neg]
  · show requireInteger .coefficient (.atom (intText c)) = _
    rw [requireInteger_intText, if_pos hc]

theorem monomial_negated (s : SExpr) : monomial (.app "-" [s]) = negatedMonomial s := rfl

theorem monomial_product (s t : SExpr) :
    monomial (.app "*" [s, t]) = productMonomial (.app "*" [s, t]) s t := rfl

/-- The negative of what is no power is that of an integer. -/
theorem negatedMonomial_of_none {s : SExpr} (h : powerDegree? s = .ok none) :
    negatedMonomial s = (requireInteger .constant s >>= fun i => .ok (-i, 0)) := by
  rw [negatedMonomial, h]
  rfl

/-- **The constant is read back.** -/
theorem monomial_integerTerm (hc : isWritable c = true) :
    monomial (integerTerm c) = .ok (c, 0) := by
  rw [integerTerm]
  split
  · rw [monomial_negated, negatedMonomial_of_none (powerDegree?_intText _),
      requireInteger_intText, isWritable_neg, if_pos hc]
    exact congrArg (fun i => Except.ok (i, 0)) (neg_neg c)
  · rw [monomial, powerDegree?_intText, integerValue?_intText, if_pos hc]
    · rfl
    · exact nofun
    · exact nofun

/-- **A monomial is read back** if its degree has few enough digits. -/
theorem monomial_productTerm (hc : isWritable c = true) (e : Nat) : monomial (productTerm c e) =
    if isWritable e then .ok (c, (e : Int))
    else .error (.notInteger .exponent (.atom (intText e))) := by
  rw [productTerm, monomial_product, productMonomial, powerDegree?_powerTerm]
  by_cases he : isWritable e = true
  · rw [if_pos he, if_pos he]
    show (do .ok (← coefficient (integerTerm c), (e : Int)) : Except _ (Int × Int)) = _
    rw [coefficient_integerTerm hc]
    rfl
  · rw [if_neg he, if_neg he]
    rfl

/-! ## 3. Zeros between monomials -/

/-- The zeros that are left out before a monomial or the constant fit into memory, everywhere in a
    polynomial in front of which `n` zeros have been left out. -/
def GapsFit (room : Nat) : Nat → Poly → Prop
  | _, [] => True
  | n, [_] => n ≤ room
  | n, c :: d :: p =>
    if c = 0 then GapsFit room (n + 1) (d :: p) else n ≤ room ∧ GapsFit room 0 (d :: p)

/-- Gaps in a polynomial that fits into memory itself fit, too. -/
theorem gapsFit_of_length_le {n : Nat} {p : Poly} (h : n + p.length ≤ room + 1) :
    GapsFit room n p := by
  fun_induction GapsFit room n p with
  | case1 => trivial
  | case2 n c =>
    rw [List.length_singleton] at h
    omega
  | case3 n d p ih =>
    rw [List.length_cons] at h
    exact ih (by omega)
  | case4 n c d p hc ih =>
    rw [List.length_cons] at h
    exact ⟨by omega, ih (by omega)⟩

theorem zeros_eq_ok_iff {n : Int} {p : Poly} :
    zeros room n = .ok p ↔ n ≤ room ∧ List.replicate n.toNat 0 = p := by
  rw [zeros]
  split
  · rename_i h
    rw [and_iff_right h, Except.ok.injEq]
  · rename_i h
    refine iff_of_false (fun hp => ?_) fun hn => h hn.1
    cases hp

/-- A monomial behind another one: its degree has to be lower, and zeros fill the places between. -/
theorem coefficientsAfter_cons_eq {s : SExpr} {c d e : Int} (hs : monomial s = .ok (c, e))
    (rest : List SExpr) : coefficientsAfter room d (s :: rest) =
      if d ≤ e then .error (fallFault e d)
      else (do
        let gap ← zeros room (d - e - 1)
        let lower ← coefficientsAfter room e rest
        .ok (gap ++ c :: lower) : Except DecodeFault Poly) := by
  rw [coefficientsAfter, hs]
  show (if d ≤ e then _ else _) = _
  split
  · rfl
  · rfl

/-- What is read from a monomial behind `n` zeros that were left out. -/
theorem coefficientsAfter_cons {s : SExpr} {c : Int} {d n : Nat} {rest : List SExpr}
    (hs : monomial s = .ok (c, (d : Int))) {q : Poly} :
    coefficientsAfter room ((d + 1 + n : Nat) : Int) (s :: rest) = .ok q ↔
      n ≤ room ∧ ∃ r, coefficientsAfter room d rest = .ok r ∧ List.replicate n 0 ++ c :: r = q := by
  have hfall : ¬ ((d + 1 + n : Nat) : Int) ≤ d := by omega
  have hgap : ((d + 1 + n : Nat) : Int) - d - 1 = (n : Int) := by omega
  rw [coefficientsAfter_cons_eq hs, if_neg hfall, hgap, bind₂_eq_ok_iff]
  simp only [zeros_eq_ok_iff, Int.ofNat_le, Int.toNat_natCast]
  constructor
  · intro h
    obtain ⟨_, r, ⟨hn, rfl⟩, hr, hq⟩ := h
    exact ⟨hn, r, hr, hq⟩
  · intro h
    obtain ⟨hn, r, hr, hq⟩ := h
    exact ⟨_, r, ⟨hn, rfl⟩, hr, hq⟩

/-- **The zeros that were left out are filled in again**, if they fit into memory. -/
theorem coefficientsAfter_monomialTerms {p : Poly} (hne : p ≠ []) (hp : p.all isWritable = true)
    (hdegree : isWritable ((p.length - 1 : Nat) : Int) = true) (n : Nat) (q : Poly) :
    coefficientsAfter room ((p.length + n : Nat) : Int) (monomialTerms p) = .ok q ↔
      GapsFit room n p ∧ List.replicate n 0 ++ p = q := by
  fun_induction GapsFit room n p generalizing q with
  | case1 => exact absurd rfl hne
  | case2 n c =>
    have hc : isWritable c = true := by simpa using hp
    have hlast : coefficientsAfter room 0 [] = .ok [] := rfl
    rw [monomialTerms, List.length_singleton]
    refine (coefficientsAfter_cons (d := 0) (monomial_integerTerm hc)).trans ?_
    refine and_congr_right fun _ => ?_
    constructor
    · rintro ⟨r, hr, rfl⟩
      cases hlast.symm.trans hr
      rfl
    · rintro rfl
      exact ⟨[], hlast, rfl⟩
  | case3 n d p ih =>
    have hrest : (d :: p).all isWritable = true := (Bool.and_eq_true_iff.1 hp).2
    have hlength : (0 :: d :: p).length + n = (d :: p).length + (n + 1) := by
      rw [List.length_cons]
      omega
    have hzeros : List.replicate n 0 ++ 0 :: d :: p = List.replicate (n + 1) 0 ++ d :: p := by
      rw [List.replicate_succ', List.append_assoc]
      rfl
    rw [hlength, hzeros]
    exact ih (List.cons_ne_nil _ _) hrest (isWritable_of_le (by simp) hdegree) q
  | case4 n c d p hc ih =>
    obtain ⟨hcoefficient, hrest⟩ := Bool.and_eq_true_iff.1 hp
    have hmonomial := (monomial_productTerm hcoefficient (p.length + 1)).trans (if_pos hdegree)
    have hlower := ih (List.cons_ne_nil _ _) hrest (isWritable_of_le (by simp) hdegree)
    rw [monomialTerms, if_neg hc]
    refine (coefficientsAfter_cons hmonomial).trans ?_
    rw [and_assoc]
    refine and_congr_right fun _ => ?_
    constructor
    · rintro ⟨r, hr, rfl⟩
      obtain ⟨hgaps, rfl⟩ := (hlower r).1 hr
      exact ⟨hgaps, rfl⟩
    · rintro ⟨hgaps, rfl⟩
      exact ⟨d :: p, (hlower _).2 ⟨hgaps, rfl⟩, rfl⟩

/-! ## 4. The first coefficient that is not zero -/

/-- The coefficients from the first that is not zero, or else the constant. -/
def Poly.normal : Poly → Poly
  | [] => []
  | [c] => [c]
  | c :: d :: p => if c = 0 then normal (d :: p) else c :: d :: p

/-- A polynomial of as low a degree as its number of coefficients allows. -/
def Poly.IsNormal (p : Poly) : Prop := p.length ≤ 1 ∨ p.leading ≠ 0

namespace Poly

theorem isNormal_normal (p : Poly) : p.normal.IsNormal := by
  fun_induction normal p with
  | case1 => exact .inl (Nat.zero_le 1)
  | case2 c => exact .inl (Nat.le_refl 1)
  | case3 d p ih => exact ih
  | case4 c d p hc => exact .inr hc

theorem normal_of_isNormal {p : Poly} (h : p.IsNormal) : p.normal = p := by
  fun_cases normal p with
  | case1 => rfl
  | case2 c => rfl
  | case3 d p => exact absurd h (by simp [IsNormal, leading])
  | case4 c d p hc => rfl

/-- **A polynomial is left as it is exactly if it has no leading zeros.** -/
theorem normal_eq_self_iff {p : Poly} : p.normal = p ↔ p.IsNormal :=
  ⟨fun h => h ▸ isNormal_normal p, normal_of_isNormal⟩

theorem normal_ne_nil {p : Poly} (h : p ≠ []) : p.normal ≠ [] := by
  fun_induction normal p with
  | case1 => exact h
  | case2 c => exact h
  | case3 d p ih => exact ih (List.cons_ne_nil _ _)
  | case4 c d p hc => exact h

/-- Zeros in front do not count. -/
theorem trim_normal (p : Poly) : p.normal.trim = p.trim := by
  fun_induction normal p with
  | case1 => rfl
  | case2 c => rfl
  | case3 d p ih => rw [ih]; rfl
  | case4 c d p hc => rfl

theorem all_isWritable_normal (p : Poly) : p.normal.all isWritable = p.all isWritable := by
  fun_induction normal p with
  | case1 => rfl
  | case2 c => rfl
  | case3 d p ih => rw [ih, List.all_cons (a := 0), isWritable_zero, Bool.true_and]
  | case4 c d p hc => rfl

theorem monomialTerms_normal (p : Poly) : monomialTerms p.normal = monomialTerms p := by
  fun_induction normal p with
  | case1 => rfl
  | case2 c => rfl
  | case3 d p ih => rw [ih]; rfl
  | case4 c d p hc => rfl

end Poly

/-! ## 5. Polynomials -/

/-- What is read from a sum that starts with a given monomial. -/
theorem coefficientsOf_cons {s : SExpr} {c d : Int} {rest : List SExpr}
    (hs : monomial s = .ok (c, d)) {q : Poly} :
    coefficientsOf room (.app "+" (s :: rest)) = .ok q ↔
      ∃ r, coefficientsAfter room d rest = .ok r ∧ c :: r = q := by
  show (monomial s >>= _) = _ ↔ _
  rw [hs]
  exact bind_eq_ok_iff

/-- A constant is read. -/
theorem coefficientsOf_constant {c : Int} (hc : isWritable c = true) (q : Poly) :
    coefficientsOf room (.app "+" (monomialTerms [c])) = .ok q ↔ [c] = q := by
  have hlast : coefficientsAfter room 0 [] = .ok [] := rfl
  refine (coefficientsOf_cons (monomial_integerTerm hc)).trans ?_
  constructor
  · rintro ⟨r, hr, rfl⟩
    cases hlast.symm.trans hr
    rfl
  · rintro rfl
    exact ⟨[], hlast, rfl⟩

/-- A polynomial of a positive degree is read if its degree has few enough digits and the zeros
    between its monomials fit into memory. -/
theorem coefficientsOf_leading {c d : Int} {p : Poly} (hc : c ≠ 0)
    (hp : (c :: d :: p).all isWritable = true) (q : Poly) :
    coefficientsOf room (.app "+" (monomialTerms (c :: d :: p))) = .ok q ↔
      (isWritable ((p.length + 1 : Nat) : Int) = true ∧ GapsFit room 0 (d :: p)) ∧
        c :: d :: p = q := by
  obtain ⟨hcoefficient, hrest⟩ := Bool.and_eq_true_iff.1 hp
  have hmonomial := monomial_productTerm hcoefficient (p.length + 1)
  rw [monomialTerms, if_neg hc]
  by_cases hdegree : isWritable ((p.length + 1 : Nat) : Int) = true
  · have hlower := @coefficientsAfter_monomialTerms room (d :: p) (List.cons_ne_nil d p) hrest
      (isWritable_of_le (by simp) hdegree) 0
    refine (coefficientsOf_cons (hmonomial.trans (if_pos hdegree))).trans ?_
    constructor
    · rintro ⟨r, hr, rfl⟩
      obtain ⟨hfit, rfl⟩ := (hlower r).1 hr
      exact ⟨⟨hdegree, hfit⟩, rfl⟩
    · rintro ⟨⟨-, hfit⟩, rfl⟩
      exact ⟨d :: p, (hlower _).2 ⟨hfit, rfl⟩, rfl⟩
  · refine ⟨fun h => ?_, fun h => absurd h.1.1 hdegree⟩
    have hfault :
        coefficientsOf room (.app "+" (productTerm c (p.length + 1) :: monomialTerms (d :: p))) =
          .error (.notInteger .exponent (.atom (intText ((p.length + 1 : Nat) : Int)))) := by
      show (monomial (productTerm c (p.length + 1)) >>= _) = _
      rw [hmonomial, if_neg hdegree]
      rfl
    cases hfault.symm.trans h

/-- The polynomials that keep to the limits: their coefficients and their degree have few enough
    digits, and the zeros between their monomials fit into memory. -/
def Poly.Fits (room : Nat) (p : Poly) : Prop :=
  p.all isWritable = true ∧ isWritable ((p.normal.length - 1 : Nat) : Int) = true ∧
    GapsFit room 0 p.normal

/-- **The coefficients that are read** are those from the first that is not zero. -/
theorem coefficientsOf_monomialTerms {p : Poly} (hne : p ≠ []) (hp : p.all isWritable = true)
    (q : Poly) : coefficientsOf room (.app "+" (monomialTerms p)) = .ok q ↔
      p.Fits room ∧ p.normal = q := by
  have hall : p.normal.all isWritable = true := (Poly.all_isWritable_normal p).trans hp
  have hnormal := Poly.isNormal_normal p
  have hkept := Poly.normal_ne_nil hne
  rw [← Poly.monomialTerms_normal, Poly.Fits, and_iff_right hp]
  generalize p.normal = r at hall hnormal hkept ⊢
  rcases r with _ | ⟨c, _ | ⟨d, r⟩⟩
  · exact absurd rfl hkept
  · have hc : isWritable c = true := (Bool.and_eq_true_iff.1 hall).1
    refine (coefficientsOf_constant hc q).trans (and_iff_right ⟨?_, room.zero_le⟩).symm
    rw [List.length_singleton, Nat.sub_self, Nat.cast_zero]
    exact isWritable_zero
  · have hc : c ≠ 0 := hnormal.resolve_left (by simp)
    have hgaps : GapsFit room 0 (c :: d :: r) ↔ GapsFit room 0 (d :: r) := by
      rw [GapsFit, if_neg hc, and_iff_right room.zero_le]
    rw [hgaps]
    exact coefficientsOf_leading hc hall q

/-! ## 6. Atoms -/

theorem proper_integerTerm (i : Int) : (integerTerm i).Proper := by
  rw [integerTerm]
  split
  · refine proper_app.2 ⟨isAtom_iff.2 ⟨by decide, by decide⟩, ?_⟩
    exact List.forall_mem_singleton.2 (proper_atom.2 (isAtom_intText _))
  · exact proper_atom.2 (isAtom_intText _)

theorem proper_productTerm (c : Int) (e : Nat) : (productTerm c e).Proper := by
  have hvariable : (SExpr.atom "x").Proper := proper_atom.2 (isAtom_iff.2 ⟨by decide, by decide⟩)
  have hpower : (powerTerm e).Proper := by
    rw [powerTerm]
    split
    · exact hvariable
    · refine proper_app.2 ⟨isAtom_iff.2 ⟨by decide, by decide⟩, ?_⟩
      exact List.forall_mem_cons.2 ⟨hvariable,
        List.forall_mem_singleton.2 (proper_atom.2 (isAtom_intText _))⟩
  refine proper_app.2 ⟨isAtom_iff.2 ⟨by decide, by decide⟩, ?_⟩
  exact List.forall_mem_cons.2 ⟨proper_integerTerm c, List.forall_mem_singleton.2 hpower⟩

theorem proper_monomialTerms (p : Poly) : ∀ s ∈ monomialTerms p, s.Proper := by
  fun_induction monomialTerms p with
  | case1 => exact List.forall_mem_nil _
  | case2 c => exact List.forall_mem_singleton.2 (proper_integerTerm c)
  | case3 d p ih => exact ih
  | case4 c d p hc ih => exact List.forall_mem_cons.2 ⟨proper_productTerm c _, ih⟩

end Credal
