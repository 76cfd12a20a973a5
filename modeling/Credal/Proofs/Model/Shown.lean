import Credal.Proofs.Model.Decimals

/-!
# Numbers as they are shown

The places of a decimal are counted by a loop that takes one factor two and one factor five from the
denominator at a time. The loop ends for every denominator. What is left is one exactly if the
denominator has no other prime factors, and then the number is shown as a decimal with the fewest
places that it can have, and with one at least; any other number is shown as the quotient of its
numerator and its denominator. Only numbers with too many digits are not shown.

* `Strips`, `strips_decimalPlaces`: the loop and its end;
* `isDecimal_iff_forall_prime`: the numbers with a finite decimal;
* `abs_mul_ten_pow`: the digits of a decimal as one number;
* `Shows`: a text as a decimal with its places;
* `exists_shown_whole`, `exists_shown`: whole numbers and decimals;
* `numerals_are_exact`: every number.
-/

namespace Credal

open Credal.Number

/-! ## 1. The loop -/

/-- The loop from `n` ends: as long as a factor two or five is left, such factors are taken away and
    a place is counted. -/
inductive Strips : (n places rest : Nat) → Prop where
  | done {n : Nat} (h : ¬ (n % 2 = 0 ∨ n % 5 = 0)) : Strips n 0 n
  | strip {n places rest : Nat} (h : n % 2 = 0 ∨ n % 5 = 0)
    (next : Strips (stripTen n) places rest) : Strips n (places + 1) rest

/-- What is left without a factor divides what it was taken from. -/
theorem without_factor_dvd (n p : Nat) : (if n % p = 0 then n / p else n) ∣ n := by
  split
  · exact Nat.div_dvd_of_dvd (Nat.dvd_of_mod_eq_zero ‹_›)
  · exact Nat.dvd_refl n

theorem stripTen_dvd (n : Nat) : stripTen n ∣ n :=
  (without_factor_dvd _ 5).trans (without_factor_dvd n 2)

/-- **The loop ends** for every denominator, with the places and the rest that are counted. -/
theorem strips_decimalPlaces {n : Nat} (hpos : 0 < n) :
    Strips n (decimalPlaces n).1 (decimalPlaces n).2 := by
  induction n using Nat.strong_induction_on with
  | _ n ih =>
    by_cases h : n % 2 = 0 ∨ n % 5 = 0
    · rw [decimalPlaces_step hpos h]
      exact .strip h (ih _ (stripTen_lt hpos h) (Nat.pos_of_dvd_of_pos (stripTen_dvd n) hpos))
    · rw [decimalPlaces_stop h]
      exact .done h

section

variable {n places rest : Nat}

theorem Strips.dvd (h : Strips n places rest) : rest ∣ n := by
  induction h with
  | done => exact Nat.dvd_refl _
  | strip _ _ ih => exact ih.trans (stripTen_dvd _)

theorem Strips.stops (h : Strips n places rest) : ¬ (rest % 2 = 0 ∨ rest % 5 = 0) := by
  induction h with
  | done h => exact h
  | strip _ _ ih => exact ih

end

/-! ## 2. Finite decimals -/

variable {q : ℚ}

/-- **A number has a finite decimal** exactly if its denominator has no prime factors other than two
    and five. -/
theorem isDecimal_iff_forall_prime :
    IsDecimal q ↔ ∀ p : Nat, p.Prime → p ∣ q.den → p = 2 ∨ p = 5 := by
  constructor
  · rintro ⟨k, hk⟩ p hp hdvd
    have hten : p ∣ 2 * 5 := hp.dvd_of_dvd_pow (hdvd.trans hk)
    rcases hp.dvd_mul.1 hten with h | h
    · exact .inl ((Nat.prime_dvd_prime_iff_eq hp Nat.prime_two).1 h)
    · exact .inr ((Nat.prime_dvd_prime_iff_eq hp Nat.prime_five).1 h)
  · intro h
    have hstrips := strips_decimalPlaces q.den_pos
    refine isDecimal_iff.2 (by_contra fun hrest => ?_)
    -- a prime factor of the rest is two or five, and the loop would not have ended
    obtain ⟨p, hp, hdvd⟩ := Nat.exists_prime_and_dvd hrest
    rcases h p hp (hdvd.trans hstrips.dvd) with rfl | rfl
    · exact hstrips.stops (.inl (Nat.mod_eq_zero_of_dvd hdvd))
    · exact hstrips.stops (.inr (Nat.mod_eq_zero_of_dvd hdvd))

theorem isLeast_places (h : IsDecimal q) : IsLeast {k | q.den ∣ 10 ^ k} (places q) :=
  ⟨den_dvd_ten_pow h, fun _ hk => places_le hk⟩

theorem places_of_den_eq_one (hden : q.den = 1) : places q = 0 :=
  Nat.le_zero.1 (places_le (hden ▸ Nat.one_dvd _))

theorem places_pos (h : IsDecimal q) (hden : q.den ≠ 1) : 0 < places q := by
  refine Nat.pos_of_ne_zero fun hzero => hden ?_
  have hdvd := den_dvd_ten_pow h
  rw [hzero] at hdvd
  exact Nat.dvd_one.1 hdvd

theorem abs_signed (negative : Bool) (n : Nat) : |(signed negative n : ℚ)| = n := by
  rw [cast_signed]
  split
  · rw [abs_neg, Nat.abs_cast]
  · rw [Nat.abs_cast]

/-- **The digits of a decimal** are its magnitude with the point behind them. -/
theorem abs_mul_ten_pow (h : IsDecimal q) : |q| * 10 ^ places q = decimalDigits q := by
  have hpow : (0 : ℚ) < 10 ^ places q := pow_pos (by norm_num) _
  have hdigits := congrArg abs (decimalDigits_eq h)
  rw [abs_div, abs_signed, abs_of_pos hpow, div_eq_iff hpow.ne'] at hdigits
  exact hdigits.symm

/-- A decimal has few enough digits. -/
theorem decimalDigits_lt_iff (h : IsDecimal q) :
    decimalDigits q < 10 ^ digitLimit ↔ |q| * 10 ^ places q < 10 ^ digitLimit := by
  rw [abs_mul_ten_pow h]
  exact_mod_cast Iff.rfl

/-! ## 3. Texts -/

/-- A text shows a number as a decimal with `n` places: a minus if the number is negative and no
    sign otherwise, digits, the point, and `n` digits. The digits are the magnitude. -/
def Shows (t : String) (q : ℚ) (n : Nat) : Prop :=
  ∃ ws fs : List Char, t.toList = signText (decide (q < 0)) ++ (ws ++ '.' :: fs) ∧
    (∀ c ∈ ws, c.isDigit = true) ∧ (∀ c ∈ fs, c.isDigit = true) ∧ ws ≠ [] ∧ fs.length = n ∧
      (Nat.ofDigitChars 10 (ws ++ fs) 0 : ℚ) / 10 ^ n = |q|

/-- A sign, the digits of a magnitude and a point among them show a number. -/
theorem shows_pointed {ws fs : List Char} {m : Nat} (hws : ∀ c ∈ ws, c.isDigit = true)
    (hfs : ∀ c ∈ fs, c.isDigit = true) (hne : ws ≠ [])
    (hvalue : Nat.ofDigitChars 10 (ws ++ fs) 0 = m) (hm : |q| * 10 ^ fs.length = m) :
    Shows (String.ofList (signText (decide (q.num < 0)) ++ (ws ++ '.' :: fs))) q fs.length := by
  have hpow : (10 : ℚ) ^ fs.length ≠ 0 := pow_ne_zero _ (by norm_num)
  refine ⟨ws, fs, ?_, hws, hfs, hne, rfl, ?_⟩
  · rw [String.toList_ofList, decide_eq_decide.2 Rat.num_neg]
  · rw [hvalue, ← hm, mul_div_cancel_right₀ _ hpow]

/-- **A whole number is shown with one place**, if it has few enough digits. -/
theorem exists_shown_whole (hden : q.den = 1) (h : q.num.natAbs < 10 ^ digitLimit) :
    ∃ t, wholeTerm? (signText (decide (q.num < 0))) q.num.natAbs = some (.atom t) ∧
      Shows t q 1 := by
  have hvalue : Nat.ofDigitChars 10 (natText q.num.natAbs ++ ['0']) 0 = 10 * q.num.natAbs := by
    rw [Nat.ofDigitChars_append, ofDigitChars_natText, ofDigitChars_cons, Nat.ofDigitChars_nil]
    rfl
  have hm : |q| * 10 ^ ['0'].length = ((10 * q.num.natAbs : Nat) : ℚ) := by
    have hdigits := abs_mul_ten_pow (isDecimal_of_den_eq_one hden)
    rw [places_of_den_eq_one hden, pow_zero, mul_one, decimalDigits_of_den_eq_one hden] at hdigits
    rw [hdigits, List.length_singleton, pow_one, Nat.cast_mul, Nat.cast_ofNat, mul_comm]
  refine ⟨_, ?_, shows_pointed (fun c hc => isDigit_of_mem_natText hc)
    (List.forall_mem_singleton.2 rfl) (natText_ne_nil _) hvalue hm⟩
  rw [wholeTerm?, naturalText?_eq, if_pos h]
  show some (SExpr.atom (String.ofList (signText _ ++ natText q.num.natAbs ++ ['.', '0']))) = _
  rw [List.append_assoc]

/-- **A decimal is shown with the fewest places**, if it has few enough digits. -/
theorem exists_shown (hq : IsDecimal q) (h : decimalDigits q < 10 ^ digitLimit) :
    ∃ t, numeralTerm? q = some (.atom t) ∧ Shows t q (max 1 (places q)) := by
  by_cases hden : q.den = 1
  · rw [numeralTerm?_whole hden, places_of_den_eq_one hden]
    rw [decimalDigits_of_den_eq_one hden] at h ⊢
    exact exists_shown_whole hden h
  · obtain ⟨ws, fs, htext, hws, hfs, hne, hvalue, hlength, -⟩ :=
      exists_pointed (decimalDigits q) (places q)
    have hm := abs_mul_ten_pow hq
    have hmax : max 1 (places q) = fs.length := by
      rw [hlength, Nat.max_eq_right (places_pos hq hden)]
    rw [← hlength] at hm
    refine ⟨_, ?_, hmax ▸ shows_pointed hws hfs hne hvalue hm⟩
    rw [numeralTerm?_pointed hq hden, naturalText?_eq, if_pos h, Option.map_some, htext]

/-- **Any other number is shown as a quotient**, if its numerator and its denominator have few
    enough digits. -/
theorem exists_shown_quotient (hq : ¬ IsDecimal q) (hnum : q.num.natAbs < 10 ^ digitLimit)
    (hden : q.den < 10 ^ digitLimit) : ∃ a b, numeralTerm? q = some (.app "/" [.atom a, .atom b]) ∧
      Shows a q.num 1 ∧ Shows b q.den 1 := by
  obtain ⟨a, ha, hshows⟩ := exists_shown_whole (q := q.num) (Rat.den_intCast _)
    (by rwa [Rat.num_intCast])
  obtain ⟨b, hb, hshows'⟩ := exists_shown_whole (q := q.den) (Rat.den_natCast _)
    (by rwa [Rat.num_natCast, Int.natAbs_natCast])
  rw [Rat.num_intCast] at ha
  rw [Rat.num_natCast, Int.natAbs_natCast, decide_eq_false (by omega)] at hb
  refine ⟨a, b, ?_, hshows, hshows'⟩
  rw [numeralTerm?_of_not_isDecimal hq, ha, hb]
  rfl

theorem numeralTerm?_eq_none_of_quotient (hq : ¬ IsDecimal q)
    (h : ¬ (q.num.natAbs < 10 ^ digitLimit ∧ q.den < 10 ^ digitLimit)) :
    numeralTerm? q = none := by
  rw [numeralTerm?_of_not_isDecimal hq]
  by_cases hnum : q.num.natAbs < 10 ^ digitLimit
  · rw [wholeTerm?_eq_none (signText false) fun hden => h ⟨hnum, hden⟩]
    cases wholeTerm? (signText (decide (q.num < 0))) q.num.natAbs with
    | none => rfl
    | some a => rfl
  · rw [wholeTerm?_eq_none _ hnum]
    rfl

/-! ## 4. Every number -/

/-- **Numbers are shown exactly.** The loop that counts the places ends for every number. A number
    whose denominator has no prime factors other than two and five is shown as a decimal, with the
    least number of places that its denominator allows and with one at least, exactly if the digits
    of the decimal are few enough. Any other number is shown as the quotient of its numerator and
    its denominator, exactly if the digits of both are few enough. -/
theorem numerals_are_exact (q : ℚ) : ∃ k rest, decimalPlaces q.den = (k, rest) ∧
    Strips q.den k rest ∧
    ((∀ p : Nat, p.Prime → p ∣ q.den → p = 2 ∨ p = 5) → IsLeast {j | q.den ∣ 10 ^ j} k ∧
      (|q| * 10 ^ k < 10 ^ digitLimit →
        ∃ t, numeralTerm? q = some (.atom t) ∧ Shows t q (max 1 k)) ∧
      (¬ |q| * 10 ^ k < 10 ^ digitLimit → numeralTerm? q = none)) ∧
    ((¬ ∀ p : Nat, p.Prime → p ∣ q.den → p = 2 ∨ p = 5) →
      (q.num.natAbs < 10 ^ digitLimit ∧ q.den < 10 ^ digitLimit →
        ∃ a b, numeralTerm? q = some (.app "/" [.atom a, .atom b]) ∧ Shows a q.num 1 ∧
          Shows b q.den 1) ∧
      (¬ (q.num.natAbs < 10 ^ digitLimit ∧ q.den < 10 ^ digitLimit) → numeralTerm? q = none)) := by
  refine ⟨places q, _, rfl, strips_decimalPlaces q.den_pos, fun hprimes => ?_, fun hprimes => ?_⟩
  · have hq : IsDecimal q := isDecimal_iff_forall_prime.2 hprimes
    rw [← decimalDigits_lt_iff hq]
    exact ⟨isLeast_places hq, exists_shown hq, numeralTerm?_eq_none hq⟩
  · have hq : ¬ IsDecimal q := fun h => hprimes (isDecimal_iff_forall_prime.1 h)
    exact ⟨fun h => exists_shown_quotient hq h.1 h.2, numeralTerm?_eq_none_of_quotient hq⟩

/-- A decimal below one, the zeros of which are filled in. -/
example : numeralTerm? (-3 / 80) = some (.atom "-0.0375") := by decide +kernel

theorem den_add_half (m : Nat) : ((m : ℚ) + 1 / 2).den = 2 := by
  have hquotient : (m : ℚ) + 1 / 2 = ((2 * m + 1 : Int) : ℚ) / (2 : Int) := by
    push_cast
    ring
  have hcoprime : Nat.Coprime (2 * m + 1 : Int).natAbs (2 : Int).natAbs := by
    rw [Nat.coprime_comm]
    exact (Nat.Prime.coprime_iff_not_dvd Nat.prime_two).2 (by omega)
  rw [hquotient]
  exact_mod_cast Rat.den_div_eq_of_coprime (by decide) hcoprime

/-- A half has a finite decimal, which has a place. -/
theorem isDecimal_add_half (m : Nat) : IsDecimal ((m : ℚ) + 1 / 2) :=
  ⟨1, den_add_half m ▸ Dvd.intro 5 rfl⟩

/-- A half behind the point adds a digit. -/
theorem ten_mul_le_decimalDigits (m : Nat) : 10 * m ≤ decimalDigits ((m : ℚ) + 1 / 2) := by
  have hplaces : 0 < places ((m : ℚ) + 1 / 2) :=
    places_pos (isDecimal_add_half m) (by rw [den_add_half]; decide)
  have hten : (10 : ℚ) ≤ 10 ^ places ((m : ℚ) + 1 / 2) := le_self_pow₀ (by norm_num) hplaces.ne'
  have hm : (m : ℚ) ≤ |(m : ℚ) + 1 / 2| := le_trans (by linarith) (le_abs_self _)
  have hproduct : (m : ℚ) * 10 ≤ decimalDigits ((m : ℚ) + 1 / 2) := by
    rw [← abs_mul_ten_pow (isDecimal_add_half m)]
    exact mul_le_mul hm hten (by norm_num) (abs_nonneg _)
  rw [Nat.mul_comm]
  exact_mod_cast hproduct

/-- A half behind as many digits as an integer may have is one digit too many. -/
theorem long_decimal_is_not_shown :
    let q : ℚ := (10 ^ (digitLimit - 1) : Nat) + 1 / 2
    (∀ p : Nat, p.Prime → p ∣ q.den → p = 2 ∨ p = 5) ∧ numeralTerm? q = none := by
  intro q
  have hq : IsDecimal q := isDecimal_add_half _
  have hlimit : 10 ^ digitLimit = 10 * 10 ^ (digitLimit - 1) := by
    rw [← Nat.pow_succ', Nat.succ_eq_add_one, Nat.sub_add_cancel (by decide)]
  have hdigits : ¬ decimalDigits q < 10 ^ digitLimit :=
    not_lt.2 (hlimit ▸ ten_mul_le_decimalDigits _)
  exact ⟨isDecimal_iff_forall_prime.1 hq, numeralTerm?_eq_none hq hdigits⟩

end Credal
