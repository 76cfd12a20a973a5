import Credal.Proofs.Number.Numerals
import Credal.Proofs.Number.Shortest

/-!
# Decimals are read from their layout

Whatever layout a decimal is written in, with a point or with an exponent, the text is that of a
numeral with its value. So decimals with the same text have the same value. The text is made of
digits, points, signs and the letter of the exponent, and begins with a digit.

* `endsIn_exponentText`: an exponent is read back;
* `Spelled`, `Layout.spelled_text`: how decimals are spelled, and that every layout spells them;
* `Spelled.exists_unsigned?`, `Spelled.toRat_eq`: a decimal is read from its spelling;
* `IsNumeralChar`, `Spelled.exists_cons`: the characters.
-/

namespace Credal.Number

open Credal.Text

/-! ## 1. Reading -/

theorem forall_mem_replicate_zero (k : Nat) : ∀ c ∈ List.replicate k '0', c.isDigit = true := by
  intro c hc
  rw [List.eq_of_mem_replicate hc]
  rfl

/-- Zeros behind a number multiply it. -/
theorem ofDigitChars_replicate_zero (k value : Nat) :
    Nat.ofDigitChars 10 (List.replicate k '0') value = value * 10 ^ k := by
  induction k generalizing value with
  | zero => exact (Nat.mul_one value).symm
  | succ k ih =>
    rw [List.replicate_succ, ofDigitChars_cons, ih, Nat.pow_succ]
    show (10 * value + 0) * 10 ^ k = _
    ring

/-- **An exponent is read back.** -/
theorem endsIn_exponentText (e : Int) : ∃ count, EndsIn (exponentText e) e count := by
  have hdigits : ∀ c ∈ natText e.natAbs, c.isDigit = true := fun c hc => isDigit_of_mem_natText hc
  -- a zero in front of a single digit changes nothing
  obtain ⟨ds, hds, hvalue, hne, htext⟩ : ∃ ds : List Char, (∀ c ∈ ds, c.isDigit = true) ∧
      Nat.ofDigitChars 10 ds 0 = e.natAbs ∧ ds ≠ [] ∧
      exponentText e = 'e' :: (if e < 0 then '-' else '+') :: ds := by
    by_cases hlen : (natText e.natAbs).length < 2
    · refine ⟨'0' :: natText e.natAbs, List.forall_mem_cons.2 ⟨rfl, hdigits⟩, ?_,
        List.cons_ne_nil _ _, ?_⟩
      · rw [ofDigitChars_cons]
        exact ofDigitChars_natText _
      · rw [exponentText]
        simp only [if_pos hlen]
    · refine ⟨natText e.natAbs, hdigits, ofDigitChars_natText _, natText_ne_nil _, ?_⟩
      rw [exponentText]
      simp only [if_neg hlen]
  have hrun := digitRun_digits hds 0 0 []
  rw [List.append_nil, digitRun, hvalue, Nat.zero_add] at hrun
  have hpos : 0 < ds.length := List.length_pos_iff.2 hne
  refine ⟨ds.length, ?_⟩
  rw [htext]
  refine ⟨fun _ _ => rfl, fun _ h => absurd (List.cons.inj h).1 (by decide), ?_⟩
  have hsigned := signed_natAbs e
  unfold exponent?
  by_cases hneg : e < 0
  · rw [decide_eq_true hneg] at hsigned
    simp only [if_pos hneg, sign, hrun, hsigned, if_pos hpos]
    rfl
  · rw [decide_eq_false hneg] at hsigned
    simp only [if_neg hneg, sign, hrun, hsigned, if_pos hpos]
    rfl

/-! ## 2. Layouts -/

/-- The end of a decimal with an exponent, or without one. -/
inductive Ending : List Char → Int → Prop
  | none : Ending [] 0
  | exponent (e : Int) : Ending (exponentText e) e

theorem Ending.endsIn {rest : List Char} {e : Int} (h : Ending rest e) :
    ∃ count, EndsIn rest e count := by
  cases h with
  | none => exact ⟨0, endsIn_nil⟩
  | exponent => exact endsIn_exponentText e

/-- A decimal is spelled with digits and perhaps a point among them. -/
inductive Spelled (d : Decimal) : List Char → Prop
  | whole {ws rest : List Char} {e : Int} (hws : ∀ c ∈ ws, c.isDigit = true) (hne : ws ≠ [])
    (hrest : Ending rest e) (hvalue : (Nat.ofDigitChars 10 ws 0 : ℚ) * 10 ^ e = d.toRat) :
    Spelled d (ws ++ rest)
  | pointed {ws fs rest : List Char} {e : Int} (hws : ∀ c ∈ ws, c.isDigit = true)
    (hfs : ∀ c ∈ fs, c.isDigit = true) (hne : ws ≠ []) (hrest : Ending rest e)
    (hvalue : (Nat.ofDigitChars 10 (ws ++ fs) 0 : ℚ) * 10 ^ (e - fs.length) = d.toRat) :
    Spelled d (ws ++ '.' :: (fs ++ rest))

variable {d : Decimal}

/-- The digits of a decimal, torn apart somewhere. -/
theorem spelled_pointed {ws fs rest : List Char} {e : Int} (hdigits : ws ++ fs = natText d.digits)
    (hne : ws ≠ []) (hrest : Ending rest e) (he : e - fs.length = d.exponent) :
    Spelled d (ws ++ '.' :: (fs ++ rest)) := by
  have hmem : ∀ c ∈ ws ++ fs, c.isDigit = true := fun c hc =>
    isDigit_of_mem_natText (hdigits ▸ hc)
  obtain ⟨hws, hfs⟩ := List.forall_mem_append.1 hmem
  refine .pointed hws hfs hne hrest ?_
  rw [hdigits, ofDigitChars_natText, he, Decimal.toRat_eq]

/-- The front of a text that is not empty is not empty. -/
theorem take_succ_ne_nil {cs : List Char} (h : cs ≠ []) (n : Nat) : cs.take (n + 1) ≠ [] := by
  rw [Ne, List.take_eq_nil_iff]
  exact fun h' => h'.elim nofun h

/-- A decimal with places after the point, which stands among its digits. -/
theorem spelled_take {n : Nat} {rest : List Char} {e : Int} (hrest : Ending rest e)
    (he : e - ((natText d.digits).length - (n + 1) : Nat) = d.exponent) :
    Spelled d ((natText d.digits).take (n + 1) ++
      '.' :: ((natText d.digits).drop (n + 1) ++ rest)) := by
  have hne := take_succ_ne_nil (natText_ne_nil d.digits) n
  refine spelled_pointed (List.take_append_drop _ _) hne hrest ?_
  rw [List.length_drop]
  exact he

/-- A decimal below one, whose digits stand behind zeros. -/
theorem spelled_zeros {k : Nat} (he : -((k + (natText d.digits).length : Nat) : Int) = d.exponent) :
    Spelled d (['0'] ++ '.' :: ((List.replicate k '0' ++ natText d.digits) ++ [])) := by
  have hfs : ∀ c ∈ List.replicate k '0' ++ natText d.digits, c.isDigit = true :=
    List.forall_mem_append.2 ⟨forall_mem_replicate_zero k, fun c hc => isDigit_of_mem_natText hc⟩
  refine .pointed (List.forall_mem_singleton.2 rfl) hfs (List.cons_ne_nil _ _) .none ?_
  have hvalue : Nat.ofDigitChars 10 (['0'] ++ (List.replicate k '0' ++ natText d.digits)) 0 =
      d.digits := by
    rw [Nat.ofDigitChars_append, Nat.ofDigitChars_append]
    show Nat.ofDigitChars 10 _ (Nat.ofDigitChars 10 _ 0) = _
    rw [ofDigitChars_replicate_zero, Nat.zero_mul, ofDigitChars_natText]
  rw [hvalue, List.length_append, List.length_replicate, zero_sub, he, Decimal.toRat_eq]

/-- A whole decimal, with zeros up to the place of the ones. -/
theorem spelled_whole {k : Nat} (hk : d.exponent = k) :
    Spelled d (natText d.digits ++ List.replicate k '0' ++ []) ∧
      Spelled d (natText d.digits ++ List.replicate k '0' ++ '.' :: (['0'] ++ [])) := by
  have hws : ∀ c ∈ natText d.digits ++ List.replicate k '0', c.isDigit = true :=
    List.forall_mem_append.2 ⟨fun c hc => isDigit_of_mem_natText hc, forall_mem_replicate_zero k⟩
  have hne : natText d.digits ++ List.replicate k '0' ≠ [] :=
    List.append_ne_nil_of_left_ne_nil (natText_ne_nil _) _
  have hvalue : Nat.ofDigitChars 10 (natText d.digits ++ List.replicate k '0') 0 =
      d.digits * 10 ^ k := by
    rw [Nat.ofDigitChars_append, ofDigitChars_natText, ofDigitChars_replicate_zero]
  refine ⟨.whole hws hne .none ?_, .pointed hws (List.forall_mem_singleton.2 rfl) hne .none ?_⟩
  · rw [hvalue, Decimal.toRat_eq, hk, zpow_natCast, zpow_zero, mul_one]
    push_cast
    rfl
  · have hten : Nat.ofDigitChars 10 (natText d.digits ++ List.replicate k '0' ++ ['0']) 0 =
        10 * (d.digits * 10 ^ k) := by
      rw [Nat.ofDigitChars_append, hvalue]
      rfl
    have hplace : (0 : Int) - (['0'].length : Nat) = -1 := rfl
    rw [hten, hplace, Decimal.toRat_eq, hk, zpow_natCast, zpow_neg_one]
    push_cast
    field_simp

/-- **A decimal is spelled** with its digits, in any layout. -/
theorem Layout.spelled_text (l : Layout) (hd : d.digits ≠ 0) : Spelled d (l.text d) := by
  have hlen : 0 < (natText d.digits).length := List.length_pos_iff.2 (natText_ne_nil _)
  unfold text
  simp only [if_neg hd]
  split
  · split
    · rename_i h0
      obtain ⟨hplain, hpoint⟩ := spelled_whole (d := d) (Int.toNat_of_nonneg h0).symm
      split
      · exact hpoint
      · exact hplain
    · split
      · have hplaces := spelled_take (d := d)
          (n := (d.exponent + (natText d.digits).length - 1).toNat) Ending.none (by omega)
        rwa [List.append_nil] at hplaces
      · have hzeros := spelled_zeros (d := d)
          (k := (-(d.exponent + (natText d.digits).length - 1) - 1).toNat) (by omega)
        rwa [List.append_nil] at hzeros
  · split
    · rename_i hempty
      -- a single digit
      have hone : (natText d.digits).length = 1 := by
        have hdrop := List.drop_eq_nil_iff.1 (List.isEmpty_iff.1 hempty)
        omega
      rw [List.append_nil, List.take_of_length_le hone.le]
      refine .whole (fun c hc => isDigit_of_mem_natText hc) (natText_ne_nil _) (.exponent _) ?_
      rw [ofDigitChars_natText, Decimal.toRat_eq, hone]
      congr 2
      omega
    · rw [List.append_assoc, List.cons_append]
      exact spelled_take (.exponent _) (by omega)

/-! ## 3. Texts -/

/-- **A decimal is read from its spelling.** -/
theorem Spelled.exists_unsigned? {cs : List Char} (h : Spelled d cs) :
    ∃ n, unsigned? false cs = some n ∧ n.toRat = d.toRat := by
  have hsigned : ∀ n : Nat, ((signed false n : Int) : ℚ) = n := fun n => cast_signed false n
  cases h with
  | whole hws hne hrest hvalue =>
    obtain ⟨count, hends⟩ := hrest.endsIn
    refine ⟨_, unsigned?_whole false hws hne hends, ?_⟩
    rw [Numeral.toRat_eq, hsigned, hvalue]
  | pointed hws hfs hne hrest hvalue =>
    obtain ⟨count, hends⟩ := hrest.endsIn
    refine ⟨_, unsigned?_pointed false hws hfs hne hends, ?_⟩
    rw [Numeral.toRat_eq, hsigned, hvalue]

/-- **Decimals with the same spelling have the same value.** -/
theorem Spelled.toRat_eq {d' : Decimal} {cs : List Char} (h : Spelled d cs) (h' : Spelled d' cs) :
    d.toRat = d'.toRat := by
  obtain ⟨n, hn, hvalue⟩ := h.exists_unsigned?
  obtain ⟨n', hn', hvalue'⟩ := h'.exists_unsigned?
  obtain rfl := Option.some.inj (hn.symm.trans hn')
  rw [← hvalue, ← hvalue']

/-- The characters of numerals. -/
def IsNumeralChar (c : Char) : Prop :=
  c.isDigit = true ∨ c = '.' ∨ c = 'e' ∨ c = '+' ∨ c = '-'

theorem Ending.isNumeralChar {rest : List Char} {e : Int} (h : Ending rest e) :
    ∀ c ∈ rest, IsNumeralChar c := by
  cases h with
  | none => exact List.forall_mem_nil _
  | exponent =>
    have hdigits : ∀ c ∈ natText e.natAbs, IsNumeralChar c := fun c hc =>
      .inl (isDigit_of_mem_natText hc)
    unfold exponentText
    refine List.forall_mem_cons.2 ⟨.inr (.inr (.inl rfl)), List.forall_mem_cons.2 ⟨?_, ?_⟩⟩
    · split
      · exact .inr (.inr (.inr (.inr rfl)))
      · exact .inr (.inr (.inr (.inl rfl)))
    · split
      · exact List.forall_mem_cons.2 ⟨.inl rfl, hdigits⟩
      · exact hdigits

/-- **A spelling begins with a digit** and is made of the characters of numerals. -/
theorem Spelled.exists_cons {cs : List Char} (h : Spelled d cs) :
    (∃ c rest, cs = c :: rest ∧ c.isDigit = true) ∧ ∀ c ∈ cs, IsNumeralChar c := by
  cases h with
  | whole hws hne hrest hvalue =>
    obtain ⟨c, ws, rfl⟩ := List.exists_cons_of_ne_nil hne
    refine ⟨⟨c, _, rfl, hws c List.mem_cons_self⟩, ?_⟩
    exact List.forall_mem_append.2 ⟨fun c hc => .inl (hws c hc), hrest.isNumeralChar⟩
  | pointed hws hfs hne hrest hvalue =>
    obtain ⟨c, ws, rfl⟩ := List.exists_cons_of_ne_nil hne
    refine ⟨⟨c, _, rfl, hws c List.mem_cons_self⟩, ?_⟩
    refine List.forall_mem_append.2 ⟨fun c hc => .inl (hws c hc), List.forall_mem_cons.2 ⟨?_, ?_⟩⟩
    · exact .inr (.inl rfl)
    · exact List.forall_mem_append.2 ⟨fun c hc => .inl (hfs c hc), hrest.isNumeralChar⟩

end Credal.Number
