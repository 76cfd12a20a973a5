import Credal.Model.Decode
import Credal.Proofs.Number.Numerals
import Credal.Proofs.SExpr.Grammar

/-!
# Decimals of model values

A rational number is written as a decimal if its denominator divides a power of ten, and as a
quotient of two whole numbers otherwise. A decimal is read back as its number, unless a run of its
digits is too long; how many digits it has is known from the least power of ten.

* `dvd_ten_pow_iff`: the places that are counted are the exponent of the least power of ten;
* `IsDecimal`, `decimalDigits_eq`: finite decimals and their digits;
* `pointed_eq`: the digits before and behind the point;
* `exists_wholeTerm?`: a whole number is read back;
* `exists_numeralTerm?`: what is written for a decimal, and what is read from it;
* `numeralTerm?_of_not_isDecimal`: the quotient that is written for any other number;
* `places_inv_two_pow`, `decimalDigits_inv_two_pow`: decimals of as many places as one likes.
-/

namespace Credal

open Credal.Number Credal.SExpr

/-! ## 1. Powers of ten -/

/-- One power of ten less, for what is left after a step. -/
theorem stripTen_dvd_iff {n k : Nat} (h : n % 2 = 0 ∨ n % 5 = 0) :
    n ∣ 10 ^ (k + 1) ↔ stripTen n ∣ 10 ^ k := by
  have hten : 10 ^ (k + 1) = 10 * 10 ^ k := by rw [Nat.pow_succ, Nat.mul_comm]
  rw [hten]
  by_cases h2 : n % 2 = 0
  · by_cases h5 : n % 5 = 0
    · obtain ⟨m, rfl⟩ : 10 ∣ n := by omega
      have hstrip : stripTen (10 * m) = m := by
        simp only [stripTen, if_pos h2]
        rw [if_pos (by omega)]
        omega
      rw [hstrip]
      exact Nat.mul_dvd_mul_iff_left (by decide)
    · obtain ⟨m, rfl⟩ := Nat.dvd_of_mod_eq_zero h2
      have hstrip : stripTen (2 * m) = m := by
        simp only [stripTen, if_pos h2]
        rw [if_neg (by omega)]
        omega
      have hcoprime : Nat.Coprime m 5 :=
        ((Nat.Prime.coprime_iff_not_dvd Nat.prime_five).2 (by omega)).symm
      rw [hstrip, show 10 = 2 * 5 from rfl, Nat.mul_assoc, Nat.mul_dvd_mul_iff_left (by decide)]
      exact ⟨hcoprime.dvd_of_dvd_mul_left, fun h => Dvd.dvd.mul_left h 5⟩
  · have h5 : n % 5 = 0 := h.resolve_left h2
    obtain ⟨m, rfl⟩ := Nat.dvd_of_mod_eq_zero h5
    have hstrip : stripTen (5 * m) = m := by
      simp only [stripTen, if_neg h2]
      rw [if_pos h5]
      omega
    have hcoprime : Nat.Coprime m 2 :=
      ((Nat.Prime.coprime_iff_not_dvd Nat.prime_two).2 (by omega)).symm
    rw [hstrip, show 10 = 5 * 2 from rfl, Nat.mul_assoc, Nat.mul_dvd_mul_iff_left (by decide)]
    exact ⟨hcoprime.dvd_of_dvd_mul_left, fun h => Dvd.dvd.mul_left h 2⟩

theorem decimalPlaces_step {n : Nat} (hpos : 0 < n) (h : n % 2 = 0 ∨ n % 5 = 0) :
    decimalPlaces n = ((decimalPlaces (stripTen n)).1 + 1, (decimalPlaces (stripTen n)).2) := by
  rw [decimalPlaces, dif_pos ⟨hpos, h⟩]

theorem decimalPlaces_stop {n : Nat} (h : ¬ (n % 2 = 0 ∨ n % 5 = 0)) :
    decimalPlaces n = (0, n) := by
  rw [decimalPlaces, dif_neg fun hn => h hn.2]

/-- **The places of a denominator** are the exponent of the least power of ten that it divides; it
    divides one exactly if nothing is left of it. -/
theorem dvd_ten_pow_iff {n : Nat} (hpos : 0 < n) (k : Nat) :
    n ∣ 10 ^ k ↔ (decimalPlaces n).2 = 1 ∧ (decimalPlaces n).1 ≤ k := by
  induction n using Nat.strong_induction_on generalizing k with
  | _ n ih =>
    by_cases h : n % 2 = 0 ∨ n % 5 = 0
    · have hstrip : 0 < stripTen n := by
        simp only [stripTen]
        split <;> split <;> omega
      rw [decimalPlaces_step hpos h]
      cases k with
      | zero =>
        rw [Nat.pow_zero, Nat.dvd_one]
        exact iff_of_false (by omega) fun hle => absurd hle.2 (Nat.not_succ_le_zero _)
      | succ k =>
        rw [stripTen_dvd_iff h, ih _ (stripTen_lt hpos h) hstrip k]
        exact and_congr_right fun _ => Nat.succ_le_succ_iff.symm
    · rw [decimalPlaces_stop h]
      have hcoprime : Nat.Coprime n 10 := by
        rw [show 10 = 2 * 5 from rfl, Nat.coprime_mul_iff_right]
        exact ⟨((Nat.Prime.coprime_iff_not_dvd Nat.prime_two).2 (by omega)).symm,
          ((Nat.Prime.coprime_iff_not_dvd Nat.prime_five).2 (by omega)).symm⟩
      constructor
      · intro hn
        exact ⟨Nat.Coprime.eq_one_of_dvd (hcoprime.pow_right k) hn, Nat.zero_le k⟩
      · rintro ⟨hn, -⟩
        obtain rfl : n = 1 := hn
        exact Nat.one_dvd _

/-- A number with a finite decimal. -/
def IsDecimal (q : ℚ) : Prop := ∃ k, q.den ∣ 10 ^ k

theorem isDecimal_iff {q : ℚ} : IsDecimal q ↔ (decimalPlaces q.den).2 = 1 := by
  constructor
  · rintro ⟨k, hk⟩
    exact ((dvd_ten_pow_iff q.den_pos k).1 hk).1
  · intro h
    exact ⟨_, (dvd_ten_pow_iff q.den_pos _).2 ⟨h, Nat.le_refl _⟩⟩

instance : DecidablePred IsDecimal := fun _ => decidable_of_iff _ isDecimal_iff.symm

theorem isDecimal_of_den_eq_one {q : ℚ} (h : q.den = 1) : IsDecimal q := ⟨0, h ▸ Nat.one_dvd _⟩

/-- The places behind the point of a finite decimal. -/
def places (q : ℚ) : Nat := (decimalPlaces q.den).1

theorem den_dvd_ten_pow {q : ℚ} (h : IsDecimal q) : q.den ∣ 10 ^ places q :=
  (dvd_ten_pow_iff q.den_pos _).2 ⟨isDecimal_iff.1 h, Nat.le_refl _⟩

/-- **The places are as few as can be.** -/
theorem places_le {q : ℚ} {k : Nat} (h : q.den ∣ 10 ^ k) : places q ≤ k :=
  ((dvd_ten_pow_iff q.den_pos k).1 h).2

/-- The digits of a finite decimal, those before the point and those behind it, as one number. -/
def decimalDigits (q : ℚ) : Nat := q.num.natAbs * 10 ^ places q / q.den

/-- **The digits with their point are the number.** -/
theorem decimalDigits_eq {q : ℚ} (h : IsDecimal q) :
    (signed (decide (q.num < 0)) (decimalDigits q) : ℚ) / 10 ^ places q = q := by
  have hden : (q.den : ℚ) ≠ 0 := Nat.cast_ne_zero.2 q.den_nz
  have hpow : (10 : ℚ) ^ places q ≠ 0 := pow_ne_zero _ (by norm_num)
  have hdigits : (decimalDigits q : ℚ) = (q.num.natAbs * 10 ^ places q : Nat) / q.den :=
    Nat.cast_div (Dvd.dvd.mul_left (den_dvd_ten_pow h) _) hden
  have hsigned : (signed (decide (q.num < 0)) (decimalDigits q) : ℚ) =
      (signed (decide (q.num < 0)) q.num.natAbs : ℚ) * 10 ^ places q / q.den := by
    rw [cast_signed, cast_signed, hdigits, Nat.cast_mul, Nat.cast_pow, Nat.cast_ofNat]
    split
    · ring
    · ring
  rw [hsigned, signed_natAbs, div_right_comm, mul_div_cancel_right₀ _ hpow, Rat.num_div_den]

theorem decimalDigits_of_den_eq_one {q : ℚ} (h : q.den = 1) : decimalDigits q = q.num.natAbs := by
  have hplaces : places q = 0 := Nat.le_zero.1 (places_le (h ▸ Nat.one_dvd _))
  rw [decimalDigits, hplaces, h, Nat.pow_zero, Nat.mul_one, Nat.div_one]

/-! ## 2. The digits of a numeral -/

/-- **The digits before and behind the point**: as many behind it as there are places, and at least
    one before it. -/
theorem pointed_eq (digits : List Char) (n : Nat) : ∃ ws fs, pointed digits n = ws ++ '.' :: fs ∧
    ws ++ fs = List.replicate (n + 1 - digits.length) '0' ++ digits ∧ fs.length = n ∧
      ws.length = max digits.length (n + 1) - n := by
  refine ⟨_, _, rfl, List.take_append_drop _ _, ?_, ?_⟩
  · simp
    omega
  · simp
    omega

/-- What stands before and behind the point are digits. -/
theorem exists_pointed (m n : Nat) : ∃ ws fs, pointed (natText m) n = ws ++ '.' :: fs ∧
    (∀ c ∈ ws, c.isDigit = true) ∧ (∀ c ∈ fs, c.isDigit = true) ∧ ws ≠ [] ∧
      Nat.ofDigitChars 10 (ws ++ fs) 0 = m ∧ fs.length = n ∧
        (ws.length ≤ digitLimit ↔ (natText m).length ≤ digitLimit + n) := by
  obtain ⟨ws, fs, htext, happend, hfs, hws⟩ := pointed_eq (natText m) n
  have hdigit : ∀ c ∈ ws ++ fs, c.isDigit = true := by
    rw [happend]
    refine List.forall_mem_append.2 ⟨fun c hc => ?_, fun c hc => isDigit_of_mem_natText hc⟩
    obtain rfl := List.eq_of_mem_replicate hc
    rfl
  obtain ⟨hwdigit, hfdigit⟩ := List.forall_mem_append.1 hdigit
  have hlimit : digitLimit = 4300 := rfl
  refine ⟨ws, fs, htext, hwdigit, hfdigit, ?_, ?_, hfs, by omega⟩
  · rintro rfl
    rw [List.length_nil] at hws
    omega
  · rw [happend, Nat.ofDigitChars_append, Nat.ofDigitChars_replicate_zero, Nat.mul_zero,
      ofDigitChars_natText]

/-! ## 3. What is written -/

theorem isAtomChar_of_isDigit {c : Char} (h : c.isDigit = true) : isAtomChar c = true := by
  obtain ⟨hlow, -⟩ := isDigit_iff.1 h
  refine isAtomChar_iff.2 ⟨isBlank_of_isDigit h, ?_, ?_⟩
  · rintro rfl
    exact absurd hlow (by decide)
  · rintro rfl
    exact absurd hlow (by decide)

theorem isAtomChar_signText (negative : Bool) : ∀ c ∈ signText negative, isAtomChar c = true := by
  cases negative with
  | true => exact List.forall_mem_singleton.2 (by decide)
  | false => exact List.forall_mem_nil _

section

variable {ws fs : List Char} (negative : Bool) (hws : ∀ c ∈ ws, c.isDigit = true)
  (hfs : ∀ c ∈ fs, c.isDigit = true)

include hws

/-- Digits with a sign in front of them are an atom. -/
theorem isAtom_digits (hne : ws ≠ []) : IsAtom (String.ofList (signText negative ++ ws)) := by
  refine ⟨fun hnil => hne ?_, fun c hc => ?_⟩
  · have hchars := congrArg String.toList hnil
    rw [String.toList_ofList] at hchars
    exact (List.append_eq_nil_iff.1 hchars).2
  · rw [String.toList_ofList] at hc
    rcases List.mem_append.1 hc with hc | hc
    · exact isAtomChar_signText negative c hc
    · exact isAtomChar_of_isDigit (hws c hc)

include hfs

/-- Digits with a sign in front of them and a point among them are an atom. -/
theorem isAtom_pointed : IsAtom (String.ofList (signText negative ++ (ws ++ '.' :: fs))) := by
  refine ⟨fun hnil => ?_, fun c hc => ?_⟩
  · have hchars := congrArg String.toList hnil
    rw [String.toList_ofList] at hchars
    exact List.cons_ne_nil _ _ (List.append_eq_nil_iff.1 (List.append_eq_nil_iff.1 hchars).2).2
  · rw [String.toList_ofList] at hc
    rcases List.mem_append.1 hc with hc | hc
    · exact isAtomChar_signText negative c hc
    · rcases List.mem_append.1 hc with hc | hc
      · exact isAtomChar_of_isDigit (hws c hc)
      · rcases List.mem_cons.1 hc with rfl | hc
        · decide
        · exact isAtomChar_of_isDigit (hfs c hc)

end

theorem isAtom_intText (i : Int) : IsAtom (intText i) := by
  rw [← String.ofList_toList (s := intText i), toList_intText_eq]
  exact isAtom_digits _ (fun c hc => isDigit_of_mem_natText hc) (natText_ne_nil _)

theorem naturalText?_eq (n : Nat) :
    naturalText? n = if n < 10 ^ digitLimit then some (natText n) else none := by
  simp only [naturalText?, isWritable_iff, Int.natAbs_natCast]

/-- **A whole number is written if it has few enough digits**, and then read back. -/
theorem exists_wholeTerm? (negative : Bool) {n : Nat} (h : n < 10 ^ digitLimit) :
    ∃ t, wholeTerm? (signText negative) n = some (.atom t) ∧ IsAtom t ∧
      readRational t = .ok (signed negative n : ℚ) := by
  have hdigit : ∀ c ∈ natText n, c.isDigit = true := fun c hc => isDigit_of_mem_natText hc
  have hzero : ∀ c ∈ ['0'], c.isDigit = true := List.forall_mem_singleton.2 rfl
  refine ⟨_, ?_, isAtom_pointed negative hdigit hzero, ?_⟩
  · rw [wholeTerm?, naturalText?_eq, if_pos h]
    show some (SExpr.atom (String.ofList (signText negative ++ natText n ++ ['.', '0']))) = _
    rw [List.append_assoc]
  · have hlimit : max (natText n).length ['0'].length ≤ digitLimit :=
      max_le ((length_natText_le_iff n).2 h) (by decide)
    have hvalue : Nat.ofDigitChars 10 (natText n ++ ['0']) 0 = 10 * n := by
      rw [Nat.ofDigitChars_append, ofDigitChars_natText, ofDigitChars_cons, Nat.ofDigitChars_nil]
      rfl
    have hten : (signed negative (10 * n) : ℚ) / 10 ^ ['0'].length = (signed negative n : ℚ) := by
      rw [cast_signed, cast_signed, List.length_singleton, pow_one, Nat.cast_mul, Nat.cast_ofNat]
      split
      · ring
      · ring
    rw [readRational_pointed negative hdigit hzero (natText_ne_nil n), if_pos hlimit, hvalue, hten]

theorem wholeTerm?_eq_none (sign : List Char) {n : Nat} (h : ¬ n < 10 ^ digitLimit) :
    wholeTerm? sign n = none := by
  rw [wholeTerm?, naturalText?_eq, if_neg h]
  rfl

variable {q : ℚ}

/-- The sign that is written for a number. -/
theorem signText_num : (if q.num < 0 then ['-'] else []) = signText (decide (q.num < 0)) := by
  rw [signText]
  simp only [decide_eq_true_eq]

theorem numeralTerm?_whole (hden : q.den = 1) :
    numeralTerm? q = wholeTerm? (signText (decide (q.num < 0))) (decimalDigits q) := by
  rw [numeralTerm?, if_pos hden, signText_num, decimalDigits_of_den_eq_one hden]

theorem numeralTerm?_pointed (hq : IsDecimal q) (hden : q.den ≠ 1) :
    numeralTerm? q = (naturalText? (decimalDigits q)).map fun digits =>
      .atom (String.ofList (signText (decide (q.num < 0)) ++ pointed digits (places q))) := by
  have hrest : ¬ (decimalPlaces q.den).2 ≠ 1 := not_not.2 (isDecimal_iff.1 hq)
  have hdigits : q.num.natAbs * Nat.pow 10 (places q) / q.den = decimalDigits q := by
    rw [decimalDigits, Nat.pow_eq]
  rw [numeralTerm?, if_neg hden, signText_num]
  show (if _ then _ else _) = _
  rw [if_neg hrest, Option.map_eq_bind]
  exact congrArg (fun m => (naturalText? m).bind _) hdigits

/-- **A decimal is written if it has few enough digits.** It is read back if those behind the point
    are few enough, too. -/
theorem exists_numeralTerm? (hq : IsDecimal q) (h : decimalDigits q < 10 ^ digitLimit) :
    ∃ t, numeralTerm? q = some (.atom t) ∧ IsAtom t ∧
      readRational t = if places q ≤ digitLimit then .ok q else .error .malformed := by
  by_cases hden : q.den = 1
  · obtain ⟨t, hwrite, hatom, hread⟩ := exists_wholeTerm? (decide (q.num < 0)) h
    refine ⟨t, (numeralTerm?_whole hden).trans hwrite, hatom, ?_⟩
    have hplaces : places q = 0 := Nat.le_zero.1 (places_le (hden ▸ Nat.one_dvd _))
    have hvalue := decimalDigits_eq hq
    rw [hplaces, pow_zero, div_one] at hvalue
    rw [hread, hvalue, hplaces, if_pos (Nat.zero_le _)]
  · obtain ⟨ws, fs, htext, hws, hfs, hne, hvalue, hlength, hlimit⟩ :=
      exists_pointed (decimalDigits q) (places q)
    have hwhole : ws.length ≤ digitLimit :=
      hlimit.2 (Nat.le_add_right_of_le ((length_natText_le_iff _).2 h))
    refine ⟨_, ?_, isAtom_pointed (decide (q.num < 0)) hws hfs, ?_⟩
    · rw [numeralTerm?_pointed hq hden, naturalText?_eq, if_pos h, Option.map_some, htext]
    · rw [readRational_pointed _ hws hfs hne, hvalue, hlength, decimalDigits_eq hq]
      simp only [max_le_iff, hwhole, true_and]

theorem numeralTerm?_eq_none (hq : IsDecimal q) (h : ¬ decimalDigits q < 10 ^ digitLimit) :
    numeralTerm? q = none := by
  by_cases hden : q.den = 1
  · rw [numeralTerm?_whole hden, wholeTerm?_eq_none _ h]
  · rw [numeralTerm?_pointed hq hden, naturalText?_eq, if_neg h, Option.map_none]

/-- **Any other number is written as a quotient of two whole numbers.** -/
theorem numeralTerm?_of_not_isDecimal (hq : ¬ IsDecimal q) : numeralTerm? q =
    (wholeTerm? (signText (decide (q.num < 0))) q.num.natAbs).bind fun a =>
      (wholeTerm? (signText false) q.den).bind fun b => some (.app "/" [a, b]) := by
  have hden : q.den ≠ 1 := fun hden => hq (isDecimal_of_den_eq_one hden)
  have hrest : (decimalPlaces q.den).2 ≠ 1 := fun hrest => hq (isDecimal_iff.2 hrest)
  rw [numeralTerm?, if_neg hden, signText_num]
  show (if _ then _ else _) = _
  rw [if_pos hrest]
  rfl

/-! ## 4. Inverse powers of two -/

section

variable (k : Nat)

theorem inv_two_pow_eq : (1 / 2 ^ k : ℚ) = ((2 ^ k : Nat) : ℚ)⁻¹ := by
  rw [one_div, Nat.cast_pow, Nat.cast_ofNat]

theorem inv_two_pow_den : (1 / 2 ^ k : ℚ).den = 2 ^ k := by
  rw [inv_two_pow_eq, Rat.inv_natCast_den_of_pos (Nat.two_pow_pos k)]

theorem inv_two_pow_num : (1 / 2 ^ k : ℚ).num = 1 := by
  rw [inv_two_pow_eq, Rat.inv_natCast_num_of_pos (Nat.two_pow_pos k)]

theorem ten_pow_eq : 10 ^ k = 2 ^ k * 5 ^ k := by
  rw [← Nat.mul_pow]

/-- The inverse of a power of two has a finite decimal. -/
theorem isDecimal_inv_two_pow : IsDecimal (1 / 2 ^ k) :=
  ⟨k, by rw [inv_two_pow_den, ten_pow_eq]; exact Nat.dvd_mul_right _ _⟩

/-- It has as many places as the power has factors. -/
theorem places_inv_two_pow : places (1 / 2 ^ k) = k := by
  have hdvd := den_dvd_ten_pow (isDecimal_inv_two_pow k)
  refine Nat.le_antisymm (places_le ?_) ?_
  · rw [inv_two_pow_den, ten_pow_eq]
    exact Nat.dvd_mul_right _ _
  · rw [inv_two_pow_den, ten_pow_eq] at hdvd
    have hcoprime : Nat.Coprime (2 ^ k) (5 ^ places (1 / 2 ^ k)) := Nat.Coprime.pow _ _ (by decide)
    exact (Nat.pow_dvd_pow_iff_le_right (by decide)).1 (hcoprime.dvd_of_dvd_mul_right hdvd)

theorem decimalDigits_inv_two_pow : decimalDigits (1 / 2 ^ k) = 5 ^ k := by
  rw [decimalDigits, places_inv_two_pow, inv_two_pow_den, inv_two_pow_num, ten_pow_eq,
    Int.natAbs_one, Nat.one_mul, Nat.mul_div_cancel_left _ (Nat.two_pow_pos k)]

end

/-- They are fewer digits than places. -/
theorem five_pow_lt {k : Nat} (h : 3 ≤ k) : 5 ^ (k + 1) < 10 ^ k := by
  have hfive : 5 < 2 ^ k := Nat.lt_of_lt_of_le (by decide) (Nat.pow_le_pow_right (by decide) h)
  rw [ten_pow_eq, Nat.pow_succ']
  exact Nat.mul_lt_mul_of_pos_right hfive (Nat.pow_pos (by decide))

end Credal
