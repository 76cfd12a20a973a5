import Credal.Exact.Algebraic
import Credal.Proofs.Polynomial.Roots
import Mathlib.Analysis.SpecialFunctions.Pow.Real

/-!
# The real number of an expression

An exact number is an expression; its value is a real number. The operations on expressions simplify
some of them and act on the values as the field does. An expression that no operation but negation,
product and inverse has built is zero only if it is written as zero.

* `Algebraic.value`: the real number;
* `value_negate`, `value_times`, `value_inverse`: the operations;
* `value_ofRoot`: the roots;
* `Algebraic.ShowsZero`: expressions that do not hide a zero.
-/

namespace Credal

/-- The `k`-th distinct real root. -/
noncomputable def Poly.nthRoot (p : Poly) (k : Nat) : ℝ := Classical.epsilon (p.IsNthRoot k)

theorem Poly.IsNthRoot.nthRoot_eq {p : Poly} {k : Nat} {r : ℝ} (hp : p.leading ≠ 0)
    (h : p.IsNthRoot k r) : p.nthRoot k = r :=
  (Classical.epsilon_spec (p := p.IsNthRoot k) ⟨r, h⟩).unique hp h

namespace Algebraic

/-- The real number that an expression stands for. -/
noncomputable def value : Algebraic → ℝ
  | .rational q => q
  | .root p k => p.nthRoot k
  | .neg a => -a.value
  | .add a b => a.value + b.value
  | .mul a b => a.value * b.value
  | .inv a => a.value⁻¹
  | .power a e => a.value ^ (e : ℝ)

variable {a b : Algebraic} {p : Poly} {k : Nat} {r : ℝ}

/-! ## 1. Operations -/

theorem value_zero : (rational 0).value = 0 := Rat.cast_zero

theorem value_one : (rational 1).value = 1 := Rat.cast_one

/-- **Negation** acts as in the field of real numbers. -/
theorem value_negate (a : Algebraic) : a.negate.value = -a.value := by
  fun_cases negate a with
  | case1 q => exact Rat.cast_neg q
  | case2 a => exact (neg_neg a.value).symm
  | case3 => rfl

/-- **Products**. -/
theorem value_times (a b : Algebraic) : (a.times b).value = a.value * b.value := by
  fun_cases times a b with
  | case1 p q => exact Rat.cast_mul p q
  | case2 a b h hzero =>
    rcases hzero with rfl | rfl
    · rw [value_zero, zero_mul]
    · rw [value_zero, mul_zero]
  | case3 b => rw [value_one, one_mul]
  | case4 a => rw [value_one, mul_one]
  | case5 => rfl

/-- **Inverses**. -/
theorem value_inverse (a : Algebraic) : a.inverse.value = a.value⁻¹ := by
  fun_cases inverse a with
  | case1 q => exact Rat.cast_inv q
  | case2 a => exact (inv_inv a.value).symm
  | case3 => rfl

theorem ofRoot_of_some {q : Rat}
    (h : p.squarefree.rationalRoot? p.squarefree.chain k = some q) :
    ofRoot p k = .rational q := by
  unfold ofRoot
  simp only [h]

theorem ofRoot_of_none (h : p.squarefree.rationalRoot? p.squarefree.chain k = none) :
    ofRoot p k = .root p.squarefree k := by
  unfold ofRoot
  simp only [h]

/-- **Roots**: the one with a number is that of the squarefree polynomial. -/
theorem value_ofRoot (hp : p.trim ≠ []) (hr : p.IsNthRoot k r) : (ofRoot p k).value = r := by
  have hsimple := Poly.hasSimpleRoots_squarefree hp
  have hroot := (Poly.isNthRoot_squarefree_iff hp).2 hr
  rcases h : p.squarefree.rationalRoot? p.squarefree.chain k with _ | q
  · rw [ofRoot_of_none h]
    exact hroot.nthRoot_eq hsimple.leading_ne_zero
  · rw [ofRoot_of_some h]
    exact (Poly.rationalRoot?_eq_some_iff hsimple hroot).1 h

/-! ## 2. Zero -/

/-- The expression is written as zero if it stands for zero. -/
def ShowsZero (a : Algebraic) : Prop := a.value = 0 → a = .rational 0

theorem showsZero_rational (q : Rat) : (rational q).ShowsZero := fun h =>
  congrArg rational (Rat.cast_eq_zero.1 h)

theorem ShowsZero.negate (h : a.ShowsZero) : a.negate.ShowsZero := by
  intro hzero
  rw [value_negate, neg_eq_zero] at hzero
  rw [h hzero]
  rfl

theorem times_zero_left (b : Algebraic) : (rational 0).times b = rational 0 := by
  cases b <;> simp [times]

theorem times_zero_right (a : Algebraic) : a.times (rational 0) = rational 0 := by
  cases a <;> simp [times]

theorem ShowsZero.times (ha : a.ShowsZero) (hb : b.ShowsZero) : (a.times b).ShowsZero := by
  intro hzero
  rw [value_times] at hzero
  rcases mul_eq_zero.1 hzero with hzero | hzero
  · rw [ha hzero]
    exact times_zero_left b
  · rw [hb hzero]
    exact times_zero_right a

theorem ShowsZero.inverse (h : a.ShowsZero) : a.inverse.ShowsZero := by
  intro hzero
  rw [value_inverse, inv_eq_zero] at hzero
  rw [h hzero]
  exact congrArg rational inv_zero

theorem showsZero_ofRoot (hp : p.trim ≠ []) (hr : p.IsNthRoot k r) : (ofRoot p k).ShowsZero := by
  intro hzero
  rw [value_ofRoot hp hr] at hzero
  refine ofRoot_of_some ((Poly.rationalRoot?_eq_some_iff (Poly.hasSimpleRoots_squarefree hp)
    ((Poly.isNthRoot_squarefree_iff hp).2 hr)).2 ?_)
  rw [Rat.cast_zero, hzero]

end Algebraic

end Credal
