import Credal.Language.Infix

/-!
# Texts of integers

A natural number is read back from its digits, so different integers have different texts.

* `natText_injective`, `intText_injective`, `stateName_injective`: no two numbers share a text;
* `natural?`: the number that a text of digits stands for, and `natural?_intText`;
* `natural?_stateName`: the name of a state is no numeral.
-/

namespace Credal.Number

theorem natText_ne_nil (n : Nat) : natText n ≠ [] := Nat.toDigits_ne_nil

theorem isDigit_of_mem_natText {n : Nat} {c : Char} (h : c ∈ natText n) : c.isDigit = true :=
  Nat.isDigit_of_mem_toDigits (by decide) (by decide) h

theorem ofDigitChars_natText (n : Nat) : Nat.ofDigitChars 10 (natText n) 0 = n :=
  Nat.ofDigitChars_ten_toDigits

theorem natText_injective {m n : Nat} (h : natText m = natText n) : m = n := by
  rw [← ofDigitChars_natText m, h, ofDigitChars_natText]

theorem toList_intText (i : Int) : (intText i).toList =
    if i < 0 then '-' :: natText i.natAbs else natText i.natAbs := by
  unfold intText
  by_cases h : i < 0
  · rw [if_pos h, if_pos h, String.toList_ofList]
  · rw [if_neg h, if_neg h, String.toList_ofList]

/-- A sign is no digit. -/
theorem minus_cons_ne_natText (cs : List Char) (n : Nat) : '-' :: cs ≠ natText n := by
  intro h
  have hmem : '-' ∈ natText n := h ▸ List.mem_cons_self
  exact absurd (isDigit_of_mem_natText hmem) (by decide)

/-- **Different integers have different texts.** -/
theorem intText_injective : Function.Injective intText := by
  intro i j h
  have hlist : (intText i).toList = (intText j).toList := by rw [h]
  rw [toList_intText, toList_intText] at hlist
  by_cases hi : i < 0
  · rw [if_pos hi] at hlist
    by_cases hj : j < 0
    · rw [if_pos hj] at hlist
      have habs := natText_injective (List.cons.inj hlist).2
      omega
    · rw [if_neg hj] at hlist
      exact absurd hlist (minus_cons_ne_natText _ _)
  · rw [if_neg hi] at hlist
    by_cases hj : j < 0
    · rw [if_pos hj] at hlist
      exact absurd hlist.symm (minus_cons_ne_natText _ _)
    · rw [if_neg hj] at hlist
      have habs := natText_injective hlist
      omega

theorem toList_stateName (i : Int) :
    (RealExpr.stateName i).toList = 's' :: '_' :: (intText i).toList := by
  rw [RealExpr.stateName, String.toList_append]
  rfl

/-- **Different states have different names.** -/
theorem stateName_injective : Function.Injective RealExpr.stateName := by
  intro i j h
  have hlist : (RealExpr.stateName i).toList = (RealExpr.stateName j).toList := by rw [h]
  rw [toList_stateName, toList_stateName, List.cons.injEq, List.cons.injEq] at hlist
  exact intText_injective (String.toList_inj.1 hlist.2.2)

/-! ## Numerals -/

/-- The number that a text of digits stands for. -/
def natural? (t : String) : Option Nat :=
  if t.toList ≠ [] ∧ t.toList.all (·.isDigit) = true then some (Nat.ofDigitChars 10 t.toList 0)
  else none

/-- **A natural number is read from its text.** -/
theorem natural?_intText (n : Nat) : natural? (intText n) = some n := by
  have hlist : (intText n).toList = natText n := by
    rw [toList_intText, if_neg (by omega), Int.natAbs_natCast]
  have hdigits : (natText n).all (·.isDigit) = true :=
    List.all_eq_true.2 fun _ hc => isDigit_of_mem_natText hc
  rw [natural?, hlist, if_pos ⟨natText_ne_nil n, hdigits⟩, ofDigitChars_natText]

theorem natural?_stateName (i : Int) : natural? (RealExpr.stateName i) = none := by
  refine if_neg fun h => ?_
  rw [toList_stateName] at h
  exact absurd (List.all_eq_true.1 h.2 's' List.mem_cons_self) (by decide)

end Credal.Number
