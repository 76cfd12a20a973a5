import Credal.Number.Numeral
import Credal.Proofs.Number.Digits
import Credal.Proofs.Number.Scaling

/-!
# Numerals are read from their digits

A numeral that is written with a sign, digits and perhaps a point among them is read as the number
that it stands for, unless one of its runs of digits is too long.

* `digitRun_digits`: a run takes in the digits at the front of a text;
* `Numeral.toRat_eq`: the value of a numeral;
* `unsigned?_whole`, `unsigned?_pointed`: a numeral without and with a point, and an exponent that
  may follow;
* `readRational_whole`, `readRational_pointed`: what is read, without and with a point;
* `isWritable_iff`: an integer is written if it has few enough digits;
* `readRational_intText`: an integer that is written is read back.
-/

namespace Credal.Number

open Credal.Text

/-! ## 1. Digits -/

theorem isDigit_iff {c : Char} : c.isDigit = true ↔ 48 ≤ c.toNat ∧ c.toNat ≤ 57 := by
  rw [Char.isDigit, Bool.and_eq_true, decide_eq_true_eq, decide_eq_true_eq]
  exact Iff.rfl

/-- The ASCII digits are digits of the first script. -/
theorem digit?_of_isDigit {c : Char} (h : c.isDigit = true) : digit? c = some (c.toNat - 48) := by
  obtain ⟨hlow, hhigh⟩ := isDigit_iff.1 h
  have htable : digitZeros = 0x30 :: digitZeros.tail := rfl
  have hfind : digitZeros.find? (fun z => z ≤ c.toNat && c.toNat < z + 10) = some 0x30 := by
    rw [htable, List.find?_cons_of_pos]
    rw [Bool.and_eq_true, decide_eq_true_eq, decide_eq_true_eq]
    omega
  rw [digit?, hfind]
  rfl

theorem isBlank_of_isDigit {c : Char} (h : c.isDigit = true) : isBlank c = false := by
  obtain ⟨hlow, hhigh⟩ := isDigit_iff.1 h
  rw [isBlank, List.any_eq_false]
  intro r hr hin
  rw [Bool.and_eq_true, decide_eq_true_eq, decide_eq_true_eq] at hin
  simp only [blankRanges, List.mem_cons, List.not_mem_nil, or_false] at hr
  rcases hr with rfl | rfl | rfl | rfl | rfl | rfl | rfl | rfl | rfl | rfl <;> simp at hin <;> omega

/-- The value of digits that continue a number. -/
theorem ofDigitChars_cons (c : Char) (cs : List Char) (value : Nat) :
    Nat.ofDigitChars 10 (c :: cs) value = Nat.ofDigitChars 10 cs (10 * value + (c.toNat - 48)) :=
  Nat.ofDigitChars_cons

/-- **A run takes in the digits at the front of a text.** -/
theorem digitRun_digits {ds : List Char} (hds : ∀ c ∈ ds, c.isDigit = true) (value count : Nat)
    (rest : List Char) : digitRun value count (ds ++ rest) =
      digitRun (Nat.ofDigitChars 10 ds value) (count + ds.length) rest := by
  induction ds generalizing value count with
  | nil => rfl
  | cons c ds ih =>
    obtain ⟨hc, hds⟩ := List.forall_mem_cons.1 hds
    rw [List.cons_append, digitRun, digit?_of_isDigit hc]
    show digitRun (10 * value + (c.toNat - 48)) (count + 1) (ds ++ rest) = _
    rw [ih hds, ofDigitChars_cons, List.length_cons]
    congr 1
    omega

theorem digitRun_point (value count : Nat) (cs : List Char) :
    digitRun value count ('.' :: cs) = (value, count, '.' :: cs) := rfl

/-! ## 2. Numerals -/

theorem cast_signed (negative : Bool) (n : Nat) :
    ((signed negative n : Int) : ℚ) = if negative then -(n : ℚ) else n := by
  unfold signed
  split
  · rw [Int.cast_neg, Int.cast_natCast]
  · rw [Int.cast_natCast]

/-- **The value of a numeral.** -/
theorem Numeral.toRat_eq (n : Numeral) :
    n.toRat = (signed n.negative n.digits : ℚ) * 10 ^ n.exponent := by
  have hratio := scaleQuotient_ratio n.digits 1 n.exponent
  rw [Nat.cast_one, div_one] at hratio
  show mkRat (signed n.negative (scaleQuotient n.digits 1 n.exponent).1)
    (scaleQuotient n.digits 1 n.exponent).2 = _
  rw [Rat.mkRat_eq_div, cast_signed, cast_signed]
  split
  · rw [neg_div, neg_mul, hratio]
  · exact hratio

/-- What may follow the digits of a numeral: nothing, or an exponent `e` of `count` digits. -/
structure EndsIn (rest : List Char) (e : Int) (count : Nat) : Prop where
  stops : ∀ value n, digitRun value n rest = (value, n, rest)
  noPoint : ∀ cs, rest ≠ '.' :: cs
  exponent : exponent? rest = some (e, count)

theorem endsIn_nil : EndsIn [] 0 0 := ⟨fun _ _ => rfl, fun _ => nofun, rfl⟩

section

variable {ws fs rest : List Char} {e : Int} {count : Nat} (negative : Bool)
  (hws : ∀ c ∈ ws, c.isDigit = true) (hfs : ∀ c ∈ fs, c.isDigit = true) (hne : ws ≠ [])
  (hrest : EndsIn rest e count)

include hws hne hrest

/-- **A numeral without a point** is read. -/
theorem unsigned?_whole : unsigned? negative (ws ++ rest) =
    some ⟨negative, Nat.ofDigitChars 10 ws 0, e, max ws.length count⟩ := by
  have hrun := digitRun_digits hws 0 0 rest
  rw [hrest.stops, Nat.zero_add] at hrun
  have hpos : ws.length ≠ 0 := fun h => hne (List.length_eq_zero_iff.1 h)
  unfold unsigned?
  simp only [hrun]
  split
  · rename_i cs
    exact absurd rfl (hrest.noPoint cs)
  · rw [if_neg hpos, hrest.exponent]
    rfl

include hfs

/-- **A numeral with a point** is read. -/
theorem unsigned?_pointed : unsigned? negative (ws ++ '.' :: (fs ++ rest)) =
    some ⟨negative, Nat.ofDigitChars 10 (ws ++ fs) 0, e - fs.length,
      max (max ws.length fs.length) count⟩ := by
  have hwhole := digitRun_digits hws 0 0 ('.' :: (fs ++ rest))
  rw [digitRun_point, Nat.zero_add] at hwhole
  have hfraction := digitRun_digits hfs (Nat.ofDigitChars 10 ws 0) 0 rest
  rw [hrest.stops, Nat.zero_add, ← Nat.ofDigitChars_append] at hfraction
  have hpos : ¬ (ws.length = 0 ∧ fs.length = 0) := fun h => hne (List.length_eq_zero_iff.1 h.1)
  unfold unsigned?
  simp only [hwhole, hfraction]
  rw [if_neg hpos, hrest.exponent]
  rfl

end

/-! ## 3. Signs and margins -/

/-- A minus, or nothing. -/
def signText (negative : Bool) : List Char := if negative then ['-'] else []

/-- The sign in front of a digit is found. -/
theorem sign_signText (negative : Bool) {c : Char} {cs : List Char} (hc : c.isDigit = true) :
    sign (signText negative ++ c :: cs) = (negative, c :: cs) := by
  cases negative with
  | true => rfl
  | false =>
    obtain ⟨hlow, -⟩ := isDigit_iff.1 hc
    show sign (c :: cs) = (false, c :: cs)
    unfold sign
    split
    · rename_i heq
      obtain rfl := (List.cons.inj heq).1
      exact absurd hlow (by decide)
    · rename_i heq
      obtain rfl := (List.cons.inj heq).1
      exact absurd hlow (by decide)
    · rfl

/-- A text without blanks is trimmed to itself. -/
theorem trim_eq_self {cs : List Char} (h : ∀ c ∈ cs, isBlank c = false) : trim cs = cs := by
  have hdrop : ∀ ds : List Char, (∀ c ∈ ds, isBlank c = false) → ds.dropWhile isBlank = ds := by
    intro ds hds
    cases ds with
    | nil => rfl
    | cons d ds => exact List.dropWhile_cons_of_neg (by simp [hds d List.mem_cons_self])
  have hreverse : ∀ c ∈ cs.reverse, isBlank c = false := fun c hc => h c (List.mem_reverse.1 hc)
  rw [trim, hdrop cs h, trimEnd, hdrop cs.reverse hreverse, List.reverse_reverse]

theorem isBlank_signText (negative : Bool) : ∀ c ∈ signText negative, isBlank c = false := by
  cases negative with
  | true => exact List.forall_mem_singleton.2 (by decide)
  | false => exact List.forall_mem_nil _

/-- A signed text without blanks is read without its margins and its sign. -/
theorem sign_trim {negative : Bool} {c : Char} {cs : List Char} (hc : c.isDigit = true)
    (hcs : ∀ d ∈ cs, isBlank d = false) :
    sign (trim (String.ofList (signText negative ++ c :: cs)).toList) = (negative, c :: cs) := by
  have hblank : ∀ d ∈ signText negative ++ c :: cs, isBlank d = false :=
    List.forall_mem_append.2 ⟨isBlank_signText negative,
      List.forall_mem_cons.2 ⟨isBlank_of_isDigit hc, hcs⟩⟩
  rw [String.toList_ofList, trim_eq_self hblank, sign_signText negative hc]

/-! ## 4. Reading -/

section

variable {ws fs : List Char} (negative : Bool) (hws : ∀ c ∈ ws, c.isDigit = true)
  (hfs : ∀ c ∈ fs, c.isDigit = true) (hne : ws ≠ [])

include hws hne

/-- **A whole numeral is read as its integer**, if it is not too long. -/
theorem readRational_whole : readRational (String.ofList (signText negative ++ ws)) =
    if ws.length ≤ digitLimit then .ok (signed negative (Nat.ofDigitChars 10 ws 0) : ℚ)
    else .error .malformed := by
  obtain ⟨c, cs, rfl⟩ := List.exists_cons_of_ne_nil hne
  obtain ⟨hc, hcs⟩ := List.forall_mem_cons.1 hws
  unfold readRational
  rw [sign_trim hc fun d hd => isBlank_of_isDigit (hcs d hd)]
  have hnumeral := unsigned?_whole negative hws hne endsIn_nil
  rw [List.append_nil, Nat.max_zero] at hnumeral
  simp only [hnumeral, Numeral.toRat_eq, zpow_zero, mul_one]

include hfs

/-- **A numeral with a point is read as its decimal**, if neither side of the point is too long. -/
theorem readRational_pointed :
    readRational (String.ofList (signText negative ++ (ws ++ '.' :: fs))) =
      if max ws.length fs.length ≤ digitLimit then
        .ok ((signed negative (Nat.ofDigitChars 10 (ws ++ fs) 0) : ℚ) / 10 ^ fs.length)
      else .error .malformed := by
  have hnumeral := unsigned?_pointed negative hws hfs hne endsIn_nil
  rw [List.append_nil, Nat.max_zero, zero_sub] at hnumeral
  obtain ⟨c, cs, rfl⟩ := List.exists_cons_of_ne_nil hne
  obtain ⟨hc, hcs⟩ := List.forall_mem_cons.1 hws
  have hblank : ∀ d ∈ cs ++ '.' :: fs, isBlank d = false := by
    refine List.forall_mem_append.2 ⟨fun d hd => isBlank_of_isDigit (hcs d hd), ?_⟩
    exact List.forall_mem_cons.2 ⟨by decide, fun d hd => isBlank_of_isDigit (hfs d hd)⟩
  unfold readRational
  rw [List.cons_append, sign_trim hc hblank]
  rw [List.cons_append] at hnumeral
  simp only [hnumeral, Numeral.toRat_eq, zpow_neg, zpow_natCast, div_eq_mul_inv]

end

/-! ## 5. Integers -/

theorem length_natText_le_iff (n : Nat) : (natText n).length ≤ digitLimit ↔ n < 10 ^ digitLimit :=
  Nat.length_toDigits_le_iff (by decide) (by decide)

/-- **An integer is written if it has few enough digits.** -/
theorem isWritable_iff {i : Int} : isWritable i = true ↔ i.natAbs < 10 ^ digitLimit := by
  rw [isWritable, decide_eq_true_eq, Nat.pow_eq]

theorem lt_digitLimit {n : Nat} (h : n < 10) : n < 10 ^ digitLimit :=
  Nat.lt_of_lt_of_le h (Nat.le_self_pow (by decide) 10)

/-- An integer of one digit is written. -/
theorem isWritable_of_lt_ten {i : Int} (h : i.natAbs < 10) : isWritable i = true :=
  isWritable_iff.2 (lt_digitLimit h)

/-- The least integer with too many digits. -/
theorem not_isWritable_pow : ¬ isWritable (10 ^ digitLimit) = true := by
  have hten : (10 : Int).natAbs = 10 := rfl
  rw [isWritable_iff, Int.natAbs_pow, hten]
  exact lt_irrefl _

theorem toList_intText_eq (i : Int) :
    (intText i).toList = signText (decide (i < 0)) ++ natText i.natAbs := by
  rw [toList_intText]
  by_cases h : i < 0
  · rw [if_pos h, decide_eq_true h]
    rfl
  · rw [if_neg h, decide_eq_false h]
    rfl

theorem signed_natAbs (i : Int) : signed (decide (i < 0)) i.natAbs = i := by
  unfold signed
  by_cases h : i < 0
  · rw [if_pos (decide_eq_true h)]
    omega
  · rw [if_neg (by simpa using h)]
    omega

/-- **An integer that is written is read back**, and the digits of one that is not are not read. -/
theorem readRational_intText (i : Int) : readRational (intText i) =
    if isWritable i then .ok (i : ℚ) else .error .malformed := by
  have htext : intText i = String.ofList (signText (decide (i < 0)) ++ natText i.natAbs) := by
    rw [← toList_intText_eq, String.ofList_toList]
  rw [htext, readRational_whole _ (fun c hc => isDigit_of_mem_natText hc) (natText_ne_nil _),
    ofDigitChars_natText, signed_natAbs]
  simp only [length_natText_le_iff, isWritable_iff]

end Credal.Number
