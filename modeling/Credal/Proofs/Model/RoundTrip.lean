import Credal.Model.Exact
import Credal.Proofs.Model.Polynomials

/-!
# Model values are read back

What is written for a model value is read as its normal form: a number without a finite decimal
becomes the quotient of its numerator and its denominator, and leading zeros of a polynomial are
dropped. Nothing else is ever read. The normal form denotes the same number and is written alike.

A value is not written if a numeral in it has too many digits. One that is written is still not read
if there are more than 4300 digits behind the point.

* `ModelValue.normal`, `ModelValue.IsNormal`: normal forms, and the values that are their own;
* `ModelValue.exact_normal`: the number that is denoted;
* `ModelValue.Fits`, `returns_term?_iff`: the values that are read back, and as what;
* `proper_of_term?`: the text of a value is read as its term;
* `values_are_read_back`: rendering and decoding a value.
-/

namespace Credal

open Credal.Number Credal.SExpr

/-! ## 1. Normal forms -/

namespace ModelValue

/-- The normal form of a value. -/
def normal : ModelValue → ModelValue
  | .literal q =>
    if IsDecimal q then .literal q else .quotient (.literal (q.num : ℚ)) (.literal (q.den : ℚ))
  | .negative v => .negative v.normal
  | .quotient a b => .quotient a.normal b.normal
  | .root index p => .root index p.normal
  | .unknown s => .unknown s

/-- All literals have finite decimals, and no polynomial has leading zeros. -/
def IsNormal : ModelValue → Prop
  | .literal q => IsDecimal q
  | .negative v => v.IsNormal
  | .quotient a b => a.IsNormal ∧ b.IsNormal
  | .root _ p => p.IsNormal
  | .unknown _ => True

/-- A whole number has a finite decimal. -/
theorem isDecimal_intCast (i : Int) : IsDecimal (i : ℚ) :=
  isDecimal_of_den_eq_one (Rat.den_intCast i)

theorem isDecimal_natCast (n : Nat) : IsDecimal (n : ℚ) :=
  isDecimal_of_den_eq_one (Rat.den_natCast n)

theorem isNormal_normal (v : ModelValue) : v.normal.IsNormal := by
  induction v with
  | literal q =>
    rw [normal]
    split
    · assumption
    · exact ⟨isDecimal_intCast _, isDecimal_natCast _⟩
  | negative v ih => exact ih
  | quotient a b iha ihb => exact ⟨iha, ihb⟩
  | root index p => exact Poly.isNormal_normal p
  | unknown s => trivial

theorem normal_of_isNormal {v : ModelValue} (h : v.IsNormal) : v.normal = v := by
  induction v with
  | literal q => exact if_pos h
  | negative v ih => rw [normal, ih h]
  | quotient a b iha ihb => rw [normal, iha h.1, ihb h.2]
  | root index p => rw [normal, Poly.normal_of_isNormal h]
  | unknown s => rfl

/-- **A value is its own normal form exactly if it is normal.** -/
theorem normal_eq_self_iff {v : ModelValue} : v.normal = v ↔ v.IsNormal :=
  ⟨fun h => h ▸ isNormal_normal v, normal_of_isNormal⟩

end ModelValue

/-! ## 2. The number that is denoted -/

theorem Poly.squarefree_normal (p : Poly) : p.normal.squarefree = p.squarefree := by
  rw [squarefree, squarefree, trim_normal]

theorem rootNumber_normal (index : Int) (p : Poly) :
    rootNumber index p.normal = rootNumber index p := by
  have hcount : p.normal.rootCount = p.rootCount := by
    unfold Poly.rootCount
    rw [Poly.squarefree_normal]
  have hroot : Algebraic.ofRoot p.normal = Algebraic.ofRoot p := by
    unfold Algebraic.ofRoot
    rw [Poly.squarefree_normal]
  unfold rootNumber
  rw [Poly.trim_normal, hcount, hroot, Poly.all_isWritable_normal]

/-- A quotient of whole numbers is the number that they are the parts of. -/
theorem exact_quotient (q : ℚ) :
    (ModelValue.quotient (.literal (q.num : ℚ)) (.literal (q.den : ℚ))).exact =
      .ok (.rational q) := by
  have hden : Algebraic.rational (q.den : ℚ) ≠ .rational 0 := fun h =>
    q.den_nz (Nat.cast_eq_zero.1 (Algebraic.rational.inj h))
  show (if _ then _ else _) = _
  rw [if_neg hden]
  show Except.ok (Algebraic.rational ((q.num : ℚ) * (q.den : ℚ)⁻¹)) = _
  rw [← div_eq_mul_inv, Rat.num_div_den]

/-- **The normal form denotes the same number.** -/
theorem ModelValue.exact_normal (v : ModelValue) : v.normal.exact = v.exact := by
  induction v with
  | literal q =>
    rw [normal]
    split
    · rfl
    · exact exact_quotient q
  | negative v ih => rw [normal, exact, exact, ih]
  | quotient a b iha ihb => rw [normal, exact, exact, iha, ihb]
  | root index p => exact rootNumber_normal index p
  | unknown s => rfl

/-! ## 3. Reading what is written -/

/-- A term that may be missing is there, and is read as a value. -/
def Returns (room : Nat) (s? : Option SExpr) (v : ModelValue) : Prop :=
  ∃ s, s? = some s ∧ ModelValue.decode room s = .ok v

theorem numeralValue_eq_ok_iff {t : String} {q : ℚ} :
    numeralValue t = .ok q ↔ readRational t = .ok q := by
  unfold numeralValue
  split
  · rename_i h
    rw [h, Except.ok.injEq, Except.ok.injEq]
  · rename_i h
    rw [h]
    exact iff_of_false nofun nofun
  · rename_i h
    rw [h]
    exact iff_of_false nofun nofun

section

variable {room : Nat} {s? t? : Option SExpr} {v : ModelValue}

theorem not_returns_none : ¬ Returns room none v := fun ⟨_, h, _⟩ => nomatch h

theorem returns_some_iff {s : SExpr} :
    Returns room (some s) v ↔ ModelValue.decode room s = .ok v := by
  constructor
  · rintro ⟨s', h, hv⟩
    cases h
    exact hv
  · intro hv
    exact ⟨s, rfl, hv⟩

theorem returns_atom_iff {t : String} :
    Returns room (some (.atom t)) v ↔ ∃ q, readRational t = .ok q ∧ .literal q = v := by
  refine returns_some_iff.trans (map_eq_ok_iff.trans ?_)
  simp only [numeralValue_eq_ok_iff]

theorem returns_negative_iff : Returns room (s?.bind fun s => some (.app "-" [s])) v ↔
    ∃ w, Returns room s? w ∧ .negative w = v := by
  cases s? with
  | none => exact iff_of_false not_returns_none fun ⟨_, h, _⟩ => not_returns_none h
  | some s =>
    simp only [returns_some_iff]
    exact returns_some_iff.trans map_eq_ok_iff

theorem returns_quotient_iff :
    Returns room (s?.bind fun s => t?.bind fun t => some (.app "/" [s, t])) v ↔
      ∃ a b, Returns room s? a ∧ Returns room t? b ∧ .quotient a b = v := by
  cases s? with
  | none => exact iff_of_false not_returns_none fun ⟨_, _, h, _⟩ => not_returns_none h
  | some s =>
    cases t? with
    | none => exact iff_of_false not_returns_none fun ⟨_, _, _, h, _⟩ => not_returns_none h
    | some t =>
      simp only [returns_some_iff]
      exact returns_some_iff.trans bind₂_eq_ok_iff

end

theorem returns_wholeTerm?_iff {room : Nat} {negative : Bool} {n : Nat} {v : ModelValue} :
    Returns room (wholeTerm? (signText negative) n) v ↔
      n < 10 ^ digitLimit ∧ .literal (signed negative n : ℚ) = v := by
  by_cases h : n < 10 ^ digitLimit
  · obtain ⟨t, hwrite, -, hread⟩ := exists_wholeTerm? negative h
    rw [hwrite, returns_atom_iff, hread, and_iff_right h]
    constructor
    · rintro ⟨q, hq, rfl⟩
      rw [Except.ok.inj hq]
    · rintro rfl
      exact ⟨_, rfl, rfl⟩
  · rw [wholeTerm?_eq_none _ h]
    exact iff_of_false not_returns_none fun hv => h hv.1

/-- The numbers that keep to the limits: their numerals have few enough digits, those before and
    behind the point of a decimal together, and those behind it alone. -/
def NumeralFits (q : ℚ) : Prop :=
  if IsDecimal q then decimalDigits q < 10 ^ digitLimit ∧ places q ≤ digitLimit
  else q.num.natAbs < 10 ^ digitLimit ∧ q.den < 10 ^ digitLimit

theorem returns_decimal_iff {room : Nat} {q : ℚ} (hq : IsDecimal q) {v : ModelValue} :
    Returns room (numeralTerm? q) v ↔
      (decimalDigits q < 10 ^ digitLimit ∧ places q ≤ digitLimit) ∧ .literal q = v := by
  by_cases h : decimalDigits q < 10 ^ digitLimit
  · obtain ⟨t, hwrite, -, hread⟩ := exists_numeralTerm? hq h
    rw [hwrite, returns_atom_iff, hread, and_iff_right h]
    split
    · rename_i hplaces
      rw [and_iff_right hplaces]
      constructor
      · rintro ⟨r, hr, rfl⟩
        rw [Except.ok.inj hr]
      · rintro rfl
        exact ⟨_, rfl, rfl⟩
    · rename_i hplaces
      exact iff_of_false (fun ⟨_, hr, _⟩ => nomatch hr) fun hv => hplaces hv.1
  · rw [numeralTerm?_eq_none hq h]
    exact iff_of_false not_returns_none fun hv => h hv.1.1

/-- **A number is read back** as its decimal, or as the quotient of its parts. -/
theorem returns_numeralTerm?_iff {room : Nat} {q : ℚ} {v : ModelValue} :
    Returns room (numeralTerm? q) v ↔ NumeralFits q ∧ (ModelValue.literal q).normal = v := by
  rw [NumeralFits, ModelValue.normal]
  by_cases hq : IsDecimal q
  · rw [if_pos hq, if_pos hq]
    exact returns_decimal_iff hq
  · rw [if_neg hq, if_neg hq, numeralTerm?_of_not_isDecimal hq, returns_quotient_iff]
    simp only [returns_wholeTerm?_iff, signed_natAbs]
    constructor
    · rintro ⟨_, _, ⟨hnum, rfl⟩, ⟨hden, rfl⟩, rfl⟩
      exact ⟨⟨hnum, hden⟩, rfl⟩
    · rintro ⟨⟨hnum, hden⟩, rfl⟩
      exact ⟨_, _, ⟨hnum, rfl⟩, ⟨hden, rfl⟩, rfl⟩

/-- **A root object is read back** without leading zeros. -/
theorem returns_root_iff {room : Nat} {index : Int} {p : Poly} (hp : p ≠ []) {v : ModelValue} :
    Returns room (ModelValue.root index p).term? v ↔
      (isWritable index = true ∧ p.Fits room) ∧ .root index p.normal = v := by
  rw [ModelValue.term?, monomialTerms?_eq, writeInteger?]
  by_cases hall : p.all isWritable = true
  · rw [if_pos hall]
    by_cases hindex : isWritable index = true
    · rw [if_pos hindex, and_iff_right hindex]
      refine returns_some_iff.trans (bind₂_eq_ok_iff.trans ?_)
      simp only [requireInteger_intText, if_pos hindex, coefficientsOf_monomialTerms hp hall]
      constructor
      · rintro ⟨i, q, hi, ⟨hfits, rfl⟩, rfl⟩
        rw [Except.ok.inj hi]
        exact ⟨hfits, rfl⟩
      · rintro ⟨hfits, rfl⟩
        exact ⟨index, _, rfl, ⟨hfits, rfl⟩, rfl⟩
    · rw [if_neg hindex]
      exact iff_of_false not_returns_none fun hv => hindex hv.1.1
  · rw [if_neg hall]
    exact iff_of_false not_returns_none fun hv => hall hv.1.2.1

/-! ## 4. Values -/

namespace ModelValue

/-- Every part of the value was recognized, and every polynomial has a coefficient. -/
def Known : ModelValue → Prop
  | .literal _ => True
  | .negative v => v.Known
  | .quotient a b => a.Known ∧ b.Known
  | .root _ p => p ≠ []
  | .unknown _ => False

/-- The values that keep to the limits in all their parts. -/
def Fits (room : Nat) : ModelValue → Prop
  | .literal q => NumeralFits q
  | .negative v => v.Fits room
  | .quotient a b => a.Fits room ∧ b.Fits room
  | .root index p => isWritable index = true ∧ p.Fits room
  | .unknown _ => True

/-- **What is read from the term of a value** is its normal form, and it is read exactly if the
    value keeps to the limits. -/
theorem returns_term?_iff {room : Nat} {v : ModelValue} (h : v.Known) (w : ModelValue) :
    Returns room v.term? w ↔ v.Fits room ∧ v.normal = w := by
  induction v generalizing w with
  | literal q => exact returns_numeralTerm?_iff
  | negative v ih =>
    refine returns_negative_iff.trans ?_
    simp only [ih h, Fits, normal]
    constructor
    · rintro ⟨_, ⟨hfits, rfl⟩, rfl⟩
      exact ⟨hfits, rfl⟩
    · rintro ⟨hfits, rfl⟩
      exact ⟨_, ⟨hfits, rfl⟩, rfl⟩
  | quotient a b iha ihb =>
    refine returns_quotient_iff.trans ?_
    simp only [iha h.1, ihb h.2, Fits, normal]
    constructor
    · rintro ⟨_, _, ⟨ha, rfl⟩, ⟨hb, rfl⟩, rfl⟩
      exact ⟨⟨ha, hb⟩, rfl⟩
    · rintro ⟨⟨ha, hb⟩, rfl⟩
      exact ⟨_, _, ⟨ha, rfl⟩, ⟨hb, rfl⟩, rfl⟩
  | root index p => exact returns_root_iff h
  | unknown s => exact h.elim

theorem numeralTerm?_intCast (i : Int) :
    numeralTerm? (i : ℚ) = wholeTerm? (signText (decide (i < 0))) i.natAbs := by
  have hden := Rat.den_intCast i
  rw [numeralTerm?_whole hden, decimalDigits_of_den_eq_one hden, Rat.num_intCast]

/-- **The normal form is written alike.** -/
theorem term?_normal (v : ModelValue) : v.normal.term? = v.term? := by
  induction v with
  | literal q =>
    rw [normal]
    split
    · rfl
    · rename_i hq
      have hden : numeralTerm? (q.den : ℚ) = wholeTerm? (signText false) q.den :=
        numeralTerm?_intCast q.den
      rw [term?, term?, term?, term?, numeralTerm?_intCast, hden, numeralTerm?_of_not_isDecimal hq]
      rfl
  | negative v ih => rw [normal, term?, term?, ih]
  | quotient a b iha ihb => rw [normal, term?, term?, iha, ihb]
  | root index p =>
    rw [normal, term?, term?, monomialTerms?_eq, monomialTerms?_eq, Poly.all_isWritable_normal,
      Poly.monomialTerms_normal]
  | unknown s => rfl

end ModelValue

/-! ## 5. Texts -/

theorem proper_wholeTerm? {negative : Bool} {n : Nat} {s : SExpr}
    (h : wholeTerm? (signText negative) n = some s) : s.Proper := by
  by_cases hn : n < 10 ^ digitLimit
  · obtain ⟨t, hwrite, hatom, -⟩ := exists_wholeTerm? negative hn
    cases hwrite.symm.trans h
    exact proper_atom.2 hatom
  · rw [wholeTerm?_eq_none _ hn] at h
    cases h

theorem proper_quotient {s t : SExpr} (hs : s.Proper) (ht : t.Proper) :
    (SExpr.app "/" [s, t]).Proper :=
  proper_app.2 ⟨isAtom_iff.2 ⟨by decide, by decide⟩,
    List.forall_mem_cons.2 ⟨hs, List.forall_mem_singleton.2 ht⟩⟩

theorem proper_numeralTerm? {q : ℚ} {s : SExpr} (h : numeralTerm? q = some s) : s.Proper := by
  by_cases hq : IsDecimal q
  · by_cases hdigits : decimalDigits q < 10 ^ digitLimit
    · obtain ⟨t, hwrite, hatom, -⟩ := exists_numeralTerm? hq hdigits
      cases hwrite.symm.trans h
      exact proper_atom.2 hatom
    · rw [numeralTerm?_eq_none hq hdigits] at h
      cases h
  · rw [numeralTerm?_of_not_isDecimal hq] at h
    obtain ⟨a, ha, h⟩ := Option.bind_eq_some_iff.1 h
    obtain ⟨b, hb, h⟩ := Option.bind_eq_some_iff.1 h
    cases h
    exact proper_quotient (proper_wholeTerm? ha) (proper_wholeTerm? hb)

/-- **The atoms of a value's term are atoms of a text.** -/
theorem proper_of_term? {v : ModelValue} (h : v.Known) {s : SExpr} (hs : v.term? = some s) :
    s.Proper := by
  induction v generalizing s with
  | literal q => exact proper_numeralTerm? hs
  | negative v ih =>
    obtain ⟨t, ht, hs⟩ := Option.bind_eq_some_iff.1 hs
    cases hs
    exact proper_app.2 ⟨isAtom_iff.2 ⟨by decide, by decide⟩,
      List.forall_mem_singleton.2 (ih h ht)⟩
  | quotient a b iha ihb =>
    obtain ⟨t, ht, hs⟩ := Option.bind_eq_some_iff.1 hs
    obtain ⟨u, hu, hs⟩ := Option.bind_eq_some_iff.1 hs
    cases hs
    exact proper_quotient (iha h.1 ht) (ihb h.2 hu)
  | root index p =>
    obtain ⟨terms, hterms, hs⟩ := Option.bind_eq_some_iff.1 hs
    obtain ⟨t, ht, hs⟩ := Option.bind_eq_some_iff.1 hs
    cases hs
    rw [monomialTerms?_eq] at hterms
    rw [writeInteger?] at ht
    split at hterms
    · cases hterms
      split at ht
      · cases ht
        have hsum : (SExpr.app "+" (monomialTerms p)).Proper :=
          proper_app.2 ⟨isAtom_iff.2 ⟨by decide, by decide⟩, proper_monomialTerms p⟩
        exact proper_app.2 ⟨isAtom_iff.2 ⟨by decide, by decide⟩, List.forall_mem_cons.2
          ⟨hsum, List.forall_mem_singleton.2 (proper_atom.2 (isAtom_intText index))⟩⟩
      · cases ht
    · cases hterms
  | unknown s => exact h.elim

/-- **The text of a value is read as its term.** -/
theorem read_text?_iff {v : ModelValue} (h : v.Known) {s : SExpr} :
    (∃ t, v.text? = some t ∧ SExpr.read t = .ok s) ↔ v.term? = some s := by
  constructor
  · rintro ⟨t, ht, hs⟩
    obtain ⟨u, hu, rfl⟩ := Option.map_eq_some_iff.1 ht
    rw [read_text (proper_of_term? h hu)] at hs
    rw [hu, Except.ok.inj hs]
  · intro hs
    exact ⟨s.text, Option.map_eq_some_iff.2 ⟨s, hs, rfl⟩, read_text (proper_of_term? h hs)⟩

/-! ## 6. The round trip -/

/-- **A value that is rendered and decoded** is its normal form, through its term and through its
    text, exactly if all its numerals have few enough digits and its polynomials fit into memory;
    if not, nothing is decoded. The normal form denotes the same number and is rendered alike; a
    value is its own normal form exactly if all its literals have finite decimals and none of its
    polynomials has leading zeros. -/
theorem values_are_read_back (room : Nat) (v : ModelValue) (h : v.Known) :
    (∀ w, (∃ s, v.term? = some s ∧ ModelValue.decode room s = .ok w) ↔
      v.Fits room ∧ v.normal = w) ∧
    (∀ w, (∃ t s, v.text? = some t ∧ SExpr.read t = .ok s ∧ ModelValue.decode room s = .ok w) ↔
      v.Fits room ∧ v.normal = w) ∧
    v.normal.exact = v.exact ∧ v.normal.term? = v.term? ∧ (v.normal = v ↔ v.IsNormal) ∧
      v.normal.IsNormal := by
  have hterm := @ModelValue.returns_term?_iff room v h
  refine ⟨hterm, fun w => ?_, v.exact_normal, v.term?_normal, ModelValue.normal_eq_self_iff,
    v.isNormal_normal⟩
  rw [← hterm w, Returns]
  simp only [← read_text?_iff h]
  constructor
  · rintro ⟨t, s, ht, hs, hw⟩
    exact ⟨s, ⟨t, ht, hs⟩, hw⟩
  · rintro ⟨s, ⟨t, ht, hs⟩, hw⟩
    exact ⟨t, s, ht, hs, hw⟩

theorem values_are_read_back_of_third :
    (ModelValue.quotient (.literal (1 / 3)) (.root 2 [0, 1, 0, -2])).Known ∧
    ∃ t s, (ModelValue.quotient (.literal (1 / 3)) (.root 2 [0, 1, 0, -2])).text? = some t ∧
      SExpr.read t = .ok s ∧ ModelValue.decode 3 s =
        .ok (.quotient (.quotient (.literal 1) (.literal 3)) (.root 2 [1, 0, -2])) := by
  have hknown : (ModelValue.quotient (.literal (1 / 3)) (.root 2 [0, 1, 0, -2])).Known :=
    ⟨trivial, List.cons_ne_nil _ _⟩
  have hden : (1 / 3 : ℚ).den = 3 := by norm_num
  have hnum : (1 / 3 : ℚ).num = 1 := by norm_num
  have hthird : ¬ IsDecimal (1 / 3) := by
    rw [isDecimal_iff, hden, decimalPlaces_stop (by decide)]
    decide
  have hliteral : NumeralFits (1 / 3) := by
    rw [NumeralFits, if_neg hthird, hden, hnum]
    exact ⟨lt_digitLimit (by decide), lt_digitLimit (by decide)⟩
  have hpoly : Poly.Fits 3 [0, 1, 0, -2] := by
    refine ⟨List.all_eq_true.2 fun c hc => isWritable_of_lt_ten ?_,
      isWritable_of_lt_ten (by decide), gapsFit_of_length_le (by decide)⟩
    simp only [List.mem_cons, List.not_mem_nil, or_false] at hc
    rcases hc with rfl | rfl | rfl | rfl <;> decide
  have hnormal : (ModelValue.quotient (.literal (1 / 3)) (.root 2 [0, 1, 0, -2])).normal =
      .quotient (.quotient (.literal 1) (.literal 3)) (.root 2 [1, 0, -2]) := by
    rw [ModelValue.normal, ModelValue.normal, if_neg hthird, hden, hnum]
    norm_num [ModelValue.normal, Poly.normal]
  exact ⟨hknown, ((values_are_read_back 3 _ hknown).2.1 _).2
    ⟨⟨hliteral, isWritable_of_lt_ten (by decide), hpoly⟩, hnormal⟩⟩

/-- A decimal with one place more than a numeral may have digits is written and not read. -/
theorem long_decimal_is_not_read :
    (ModelValue.literal (1 / 2 ^ (digitLimit + 1))).Known ∧
    (∃ s, (ModelValue.literal (1 / 2 ^ (digitLimit + 1))).term? = some s) ∧
    ¬ ∃ room s w, (ModelValue.literal (1 / 2 ^ (digitLimit + 1))).term? = some s ∧
      ModelValue.decode room s = .ok w := by
  have hknown : (ModelValue.literal (1 / 2 ^ (digitLimit + 1))).Known := trivial
  refine ⟨hknown, ?_, ?_⟩
  · have hdigits : decimalDigits (1 / 2 ^ (digitLimit + 1)) < 10 ^ digitLimit := by
      rw [decimalDigits_inv_two_pow]
      exact five_pow_lt (by decide)
    obtain ⟨t, hwrite, -⟩ := exists_numeralTerm? (isDecimal_inv_two_pow _) hdigits
    exact ⟨_, hwrite⟩
  · rintro ⟨room, s, w, hs, hw⟩
    obtain ⟨hfits, -⟩ := (ModelValue.returns_term?_iff hknown w).1 ⟨s, hs, hw⟩
    rw [ModelValue.Fits, NumeralFits, if_pos (isDecimal_inv_two_pow _), places_inv_two_pow] at hfits
    exact absurd hfits.2 (Nat.not_succ_le_self _)

end Credal
