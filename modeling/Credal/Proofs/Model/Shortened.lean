import Credal.Proofs.Model.RoundTrip

/-!
# Shortened polynomials are read back

A polynomial is written in two ways: with a factor before every power, as in the term of a model
value, or shortened the way the solver prints it, where a factor one or minus one is left out. A
linear polynomial keeps its factor. Both are read alike, since their monomials are.

* `shortTerm`, `shortTerms`: the shortened monomials;
* `monomial_shortTerm`, `forall₂_shortTerms`: they are read as the others;
* `coefficientsOf_congr`: a sum is read by what its monomials are read as;
* `polynomialTerm?_eq`, `reads_polynomialTerm`: the shortened polynomial;
* `writers_agree`: root objects of both kinds.
-/

namespace Credal

open Credal.Number Credal.SExpr

/-! ## 1. What is written -/

/-- The shortened monomial of a coefficient and a positive degree. -/
def shortTerm (c : Int) (e : Nat) : SExpr :=
  if c = 1 then powerTerm e
  else if c = -1 ∧ 2 ≤ e then .app "-" [powerTerm e]
  else productTerm c e

/-- The shortened monomials of a polynomial that are not zero, and its constant. -/
def shortTerms : Poly → List SExpr
  | [] => []
  | [c] => [integerTerm c]
  | c :: d :: p =>
    if c = 0 then shortTerms (d :: p) else shortTerm c (p.length + 1) :: shortTerms (d :: p)

theorem isWritable_one : isWritable 1 = true := isWritable_of_lt_ten (by decide)

theorem isWritable_neg_one : isWritable (-1) = true := (isWritable_neg 1).trans isWritable_one

/-- A factor that is left out has few enough digits, too. -/
theorem shortTerm?_eq (c : Int) (e : Nat) :
    shortTerm? c e = if isWritable c then some (shortTerm c e) else none := by
  rw [shortTerm?, shortTerm]
  by_cases hone : c = 1
  · rw [if_pos hone, if_pos hone, hone, if_pos isWritable_one]
  · rw [if_neg hone, if_neg hone]
    by_cases hminus : c = -1 ∧ 2 ≤ e
    · rw [if_pos hminus, if_pos hminus, hminus.1, if_pos isWritable_neg_one]
    · rw [if_neg hminus, if_neg hminus]
      exact productTerm?_eq c e

/-- **A shortened polynomial is written if its coefficients have few enough digits.** -/
theorem shortTerms?_eq (p : Poly) :
    shortTerms? p = if p.all isWritable then some (shortTerms p) else none := by
  fun_induction shortTerms p with
  | case1 => rfl
  | case2 c =>
    rw [shortTerms?, integerTerm?_eq, List.all_cons, List.all_nil, Bool.and_true]
    split
    · rfl
    · rfl
  | case3 d p ih =>
    have hall : (0 :: d :: p).all isWritable = (d :: p).all isWritable := by
      rw [List.all_cons, isWritable_zero, Bool.true_and]
    rw [shortTerms?, ih, hall]
    split
    · rfl
    · rfl
  | case4 c d p hc ih =>
    have hall : (c :: d :: p).all isWritable = (isWritable c && (d :: p).all isWritable) := rfl
    rw [shortTerms?, ih, shortTerm?_eq, hall]
    cases (d :: p).all isWritable with
    | false => rw [Bool.and_false]; rfl
    | true =>
      rw [Bool.and_true]
      refine (if_neg hc).trans ?_
      split
      · rfl
      · rfl

/-! ## 2. What is read -/

/-- A power that is no integer numeral stands for the monomial with factor one. -/
theorem monomial_powerTerm (e : Nat) : monomial (powerTerm e) =
    if isWritable e then .ok (1, (e : Int))
    else .error (.notInteger .exponent (.atom (intText e))) := by
  unfold monomial
  rw [powerDegree?_powerTerm]
  by_cases he : isWritable e = true
  · rw [if_pos he, if_pos he]
    rfl
  · rw [if_neg he, if_neg he]
    rfl

theorem monomial_negative_powerTerm (e : Nat) : monomial (.app "-" [powerTerm e]) =
    if isWritable e then .ok (-1, (e : Int))
    else .error (.notInteger .exponent (.atom (intText e))) := by
  rw [monomial_negated, negatedMonomial, powerDegree?_powerTerm]
  by_cases he : isWritable e = true
  · rw [if_pos he, if_pos he]
    rfl
  · rw [if_neg he, if_neg he]
    rfl

/-- **A shortened monomial is read as the one with its factor.** -/
theorem monomial_shortTerm {c : Int} (hc : isWritable c = true) (e : Nat) :
    monomial (shortTerm c e) = monomial (productTerm c e) := by
  rw [monomial_productTerm hc, shortTerm]
  by_cases hone : c = 1
  · rw [if_pos hone, hone]
    exact monomial_powerTerm e
  · rw [if_neg hone]
    by_cases hminus : c = -1 ∧ 2 ≤ e
    · rw [if_pos hminus, hminus.1]
      exact monomial_negative_powerTerm e
    · rw [if_neg hminus]
      exact monomial_productTerm hc e

/-- Terms that are read as the same monomials, one by one. -/
def SameMonomials (terms terms' : List SExpr) : Prop :=
  List.Forall₂ (fun s t => monomial s = monomial t) terms terms'

theorem sameMonomials_shortTerms {p : Poly} (hp : p.all isWritable = true) :
    SameMonomials (shortTerms p) (monomialTerms p) := by
  fun_induction shortTerms p with
  | case1 => exact .nil
  | case2 c => exact .cons rfl .nil
  | case3 d p ih =>
    rw [monomialTerms, if_pos rfl]
    exact ih (Bool.and_eq_true_iff.1 hp).2
  | case4 c d p hc ih =>
    obtain ⟨hcoefficient, hrest⟩ := Bool.and_eq_true_iff.1 hp
    rw [monomialTerms, if_neg hc]
    exact .cons (monomial_shortTerm hcoefficient _) (ih hrest)

theorem coefficientsAfter_congr {terms terms' : List SExpr} (h : SameMonomials terms terms')
    (room : Nat) (previous : Int) :
    coefficientsAfter room previous terms = coefficientsAfter room previous terms' := by
  induction h generalizing previous with
  | nil => rfl
  | cons hst _ ih => simp only [coefficientsAfter, hst, ih]

/-- **A sum is read by what its monomials are read as.** -/
theorem coefficientsOf_congr {terms terms' : List SExpr} (h : SameMonomials terms terms')
    (hne : terms ≠ []) (room : Nat) :
    coefficientsOf room (.app "+" terms) = coefficientsOf room (.app "+" terms') := by
  rcases h with _ | ⟨hst, hrest⟩
  · exact absurd rfl hne
  · show (monomial _ >>= _) = (monomial _ >>= _)
    simp only [hst, coefficientsAfter_congr hrest]

/-! ## 3. Polynomials -/

/-- The monomials of a polynomial that is not constant, shortened if it is not linear. -/
def sumTerms (p : Poly) : List SExpr := if p.length = 2 then monomialTerms p else shortTerms p

theorem polynomialTerm?_eq {p : Poly} (hlength : 2 ≤ p.length) (hlead : p.leading ≠ 0) :
    polynomialTerm? p = if p.all isWritable then some (.app "+" (sumTerms p)) else none := by
  rcases p with _ | ⟨a, _ | ⟨b, _ | ⟨c, p⟩⟩⟩
  · simp at hlength
  · simp at hlength
  · have hterms : monomialTerms [a, b] = [productTerm a 1, integerTerm b] := if_neg hlead
    have hall : [a, b].all isWritable = (isWritable a && isWritable b) := by simp
    have hsum : sumTerms [a, b] = [productTerm a 1, integerTerm b] := (if_pos rfl).trans hterms
    rw [polynomialTerm?, integerTerm?_eq, integerTerm?_eq, hsum, hall]
    cases isWritable a with
    | false => rfl
    | true =>
      rw [Bool.true_and]
      cases isWritable b with
      | false => rfl
      | true => rfl
  · have hlong : (a :: b :: c :: p).length ≠ 2 := by simp
    rw [polynomialTerm?, shortTerms?_eq, sumTerms, if_neg hlong]
    · split
      · rfl
      · rfl
    · exact nofun
    · exact nofun
    · exact nofun

theorem sameMonomials_sumTerms {p : Poly} (hp : p.all isWritable = true) :
    SameMonomials (sumTerms p) (monomialTerms p) := by
  rw [sumTerms]
  split
  · exact List.forall₂_same.2 fun s _ => rfl
  · exact sameMonomials_shortTerms hp

theorem monomialTerms_ne_nil {p : Poly} (h : p ≠ []) : monomialTerms p ≠ [] := by
  fun_induction monomialTerms p with
  | case1 => exact absurd rfl h
  | case2 c => exact List.cons_ne_nil _ _
  | case3 d p ih => exact ih (List.cons_ne_nil _ _)
  | case4 c d p hc ih => exact List.cons_ne_nil _ _

/-- **The coefficients that are read** from the shortened polynomial are those that are read from
    the other one. -/
theorem coefficientsOf_sumTerms {p : Poly} (hne : p ≠ []) (hp : p.all isWritable = true)
    (room : Nat) :
    coefficientsOf room (.app "+" (sumTerms p)) =
      coefficientsOf room (.app "+" (monomialTerms p)) := by
  have hsame := sameMonomials_sumTerms hp
  refine coefficientsOf_congr hsame (fun hnil => ?_) room
  rw [hnil] at hsame
  exact monomialTerms_ne_nil hne (List.forall₂_nil_left_iff.1 hsame)

/-! ## 4. Root objects -/

/-- The root object of a shortened polynomial, as the solver prints it. -/
def shortRootTerm? (index : Int) (p : Poly) : Option SExpr := do
  some (.app "root-obj" [← polynomialTerm? p, .atom (← writeInteger? index)])

theorem decode_root_congr {room : Nat} {s t : SExpr} (index : SExpr)
    (h : coefficientsOf room s = coefficientsOf room t) :
    ModelValue.decode room (.app "root-obj" [s, index]) =
      ModelValue.decode room (.app "root-obj" [t, index]) := by
  show (requireInteger .rootIndex index >>= _) = (requireInteger .rootIndex index >>= _)
  rw [h]

/-- **What is read from the shortened root object** is what is read from the other one. -/
theorem returns_shortRootTerm?_iff {room : Nat} {p : Poly} (hlength : 2 ≤ p.length)
    (hlead : p.leading ≠ 0) (index : Int) (v : ModelValue) :
    Returns room (shortRootTerm? index p) v ↔ Returns room (ModelValue.root index p).term? v := by
  have hne : p ≠ [] := by
    rintro rfl
    exact hlead rfl
  rw [shortRootTerm?, ModelValue.term?, polynomialTerm?_eq hlength hlead, monomialTerms?_eq,
    writeInteger?]
  by_cases hp : p.all isWritable = true
  · rw [if_pos hp, if_pos hp]
    by_cases hindex : isWritable index = true
    · rw [if_pos hindex]
      refine returns_some_iff.trans (Iff.trans ?_ returns_some_iff.symm)
      rw [decode_root_congr _ (coefficientsOf_sumTerms hne hp room)]
    · rw [if_neg hindex]
      exact iff_of_false not_returns_none not_returns_none
  · rw [if_neg hp, if_neg hp]
    exact iff_of_false not_returns_none not_returns_none

/-- **Both writers and the reader agree.** For a polynomial that is not constant and has no leading
    zeros, the shortened root object and the one of a model value are both read as the index and the
    polynomial that were written, exactly if the index, the coefficients and the degree have few
    enough digits and the zeros between two monomials fit into memory. Nothing else is ever read. -/
theorem writers_agree (room : Nat) {p : Poly} (hlength : 2 ≤ p.length) (hlead : p.leading ≠ 0)
    (index : Int) (v : ModelValue) :
    (Returns room (shortRootTerm? index p) v ↔
      (isWritable index = true ∧ p.Fits room) ∧ .root index p = v) ∧
    (Returns room (ModelValue.root index p).term? v ↔
      (isWritable index = true ∧ p.Fits room) ∧ .root index p = v) := by
  have hne : p ≠ [] := by
    rintro rfl
    exact hlead rfl
  have hterm : Returns room (ModelValue.root index p).term? v ↔ _ := returns_root_iff hne
  rw [Poly.normal_of_isNormal (.inr hlead)] at hterm
  exact ⟨(returns_shortRootTerm?_iff hlength hlead index v).trans hterm, hterm⟩

/-- The quintic `- x ^ 5 + x ^ 4 - x + 5`, with a factor of each kind. -/
theorem writers_agree_of_quintic :
    2 ≤ [-1, 1, 0, 0, -1, 5].length ∧ Poly.leading [-1, 1, 0, 0, -1, 5] ≠ 0 ∧
    Returns 5 (shortRootTerm? (-2) [-1, 1, 0, 0, -1, 5]) (.root (-2) [-1, 1, 0, 0, -1, 5]) ∧
    Returns 5 (ModelValue.root (-2) [-1, 1, 0, 0, -1, 5]).term?
      (.root (-2) [-1, 1, 0, 0, -1, 5]) := by
  have hlength : 2 ≤ [-1, 1, 0, 0, -1, 5].length := by decide
  have hlead : Poly.leading [-1, 1, 0, 0, -1, 5] ≠ 0 := by decide
  have hfits : Poly.Fits 5 [-1, 1, 0, 0, -1, 5] := by
    refine ⟨List.all_eq_true.2 fun c hc => isWritable_of_lt_ten ?_,
      isWritable_of_lt_ten (by decide), gapsFit_of_length_le (by decide)⟩
    simp only [List.mem_cons, List.not_mem_nil, or_false] at hc
    rcases hc with rfl | rfl | rfl | rfl | rfl | rfl <;> decide
  have hindex : isWritable (-2) = true := isWritable_of_lt_ten (by decide)
  obtain ⟨hshort, hterm⟩ := writers_agree 5 hlength hlead (-2) (.root (-2) [-1, 1, 0, 0, -1, 5])
  exact ⟨hlength, hlead, hshort.2 ⟨⟨hindex, hfits⟩, rfl⟩, hterm.2 ⟨⟨hindex, hfits⟩, rfl⟩⟩

/-- The solver's short form of that quintic. -/
example : polynomialTerm? [-1, 1, 0, 0, -1, 5] =
    some (.app "+" [.app "-" [.app "^" [.atom "x", .atom "5"]], .app "^" [.atom "x", .atom "4"],
      .app "*" [.app "-" [.atom "1"], .atom "x"], .atom "5"]) := by decide +kernel

/-- A coefficient of one digit too many is written by neither. -/
theorem long_coefficient_is_not_written :
    2 ≤ [10 ^ digitLimit, -1].length ∧ Poly.leading [10 ^ digitLimit, -1] ≠ 0 ∧
    ∀ room, ¬ Returns room (shortRootTerm? 1 [10 ^ digitLimit, -1])
        (.root 1 [10 ^ digitLimit, -1]) ∧
      ¬ Returns room (ModelValue.root 1 [10 ^ digitLimit, -1]).term?
        (.root 1 [10 ^ digitLimit, -1]) := by
  have hlead : Poly.leading [10 ^ digitLimit, -1] ≠ 0 := pow_ne_zero _ (by decide)
  refine ⟨le_refl 2, hlead, fun room => ?_⟩
  have hfits : ¬ Poly.Fits room [10 ^ digitLimit, -1] := fun h =>
    not_isWritable_pow (List.all_eq_true.1 h.1 _ List.mem_cons_self)
  have hterm : ¬ Returns room (ModelValue.root 1 [10 ^ digitLimit, -1]).term?
      (.root 1 [10 ^ digitLimit, -1]) := fun h =>
    hfits ((returns_root_iff (List.cons_ne_nil _ _)).1 h).1.2
  exact ⟨fun h => hterm ((returns_shortRootTerm?_iff (le_refl 2) hlead 1 _).1 h), hterm⟩

end Credal
