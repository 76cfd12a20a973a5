import Credal.Evaluation.Evaluate
import Credal.Proofs.Number.Doubles
import Credal.Proofs.StateSpace.Valuations

/-!
# Exact arithmetic on rational numbers

Exact numbers that are rational stay rational: the operations are those of the field, a comparison
is that of the order, and a power with a natural exponent is the product. So a sum of states that
have rational values is the sum of these values.

* `Relation.holdsFor`: a comparison in an ordered field, and `compare_ofRat`;
* `power_ofRat_natCast`: powers;
* `Assignment.Gives`, `Assignment.ofRats`: assignments of rational values to the states of a table;
* `TruthTable.share`: the mass of a sentence under such values, and `mass_eq`.
-/

namespace Credal

open Credal.Number

variable {sys : AlgebraSystem}

/-- Whether a comparison holds between two elements of an ordered field. -/
def Relation.holdsFor {K : Type*} [LinearOrder K] : Relation → K → K → Bool
  | .equal, a, b => a = b
  | .notEqual, a, b => a ≠ b
  | .less, a, b => a < b
  | .lessEqual, a, b => a ≤ b
  | .greater, a, b => b < a
  | .greaterEqual, a, b => b ≤ a

/-- A comparison of rational numbers holds in every ordered field. -/
theorem Relation.holdsFor_cast {K : Type*} [Field K] [LinearOrder K] [IsStrictOrderedRing K]
    (r : Relation) (a b : ℚ) : r.holdsFor (a : K) (b : K) = r.holdsFor a b := by
  cases r with
  | equal => exact decide_eq_decide.2 Rat.cast_inj
  | notEqual => exact decide_eq_decide.2 (not_congr Rat.cast_inj)
  | less => exact decide_eq_decide.2 Rat.cast_lt
  | lessEqual => exact decide_eq_decide.2 Rat.cast_le
  | greater => exact decide_eq_decide.2 Rat.cast_lt
  | greaterEqual => exact decide_eq_decide.2 Rat.cast_le

/-! ## 1. Operations -/

namespace Exact

@[simp] theorem add_ofRat (a b : ℚ) : (ofRat a).add (ofRat b) = ofRat (a + b) := rfl

@[simp] theorem negate_ofRat (a : ℚ) : (ofRat a).negate = ofRat (-a) := rfl

@[simp] theorem mul_ofRat (a b : ℚ) : (ofRat a).mul (ofRat b) = ofRat (a * b) := rfl

@[simp] theorem sub_ofRat (a b : ℚ) : (ofRat a).sub (ofRat b) = ofRat (a - b) := by
  rw [sub, negate_ofRat, add_ofRat, sub_eq_add_neg]

@[simp] theorem div_ofRat (a b : ℚ) : (ofRat a).div (ofRat b) = ofRat (a / b) := by
  have h : (ofRat b).inverse = ofRat b⁻¹ := rfl
  rw [div, h, mul_ofRat, div_eq_mul_inv]

@[simp] theorem sign?_ofRat (a : ℚ) : (ofRat a).sign? sys = some a.num.sign := rfl

theorem sign?_ofRat_eq_zero_iff (a : ℚ) : (ofRat a).sign? sys = some 0 ↔ a = 0 := by
  rw [sign?_ofRat, Option.some.injEq, Int.sign_eq_zero_iff_zero, Rat.num_eq_zero]

/-- A double stands for its shortest decimal. -/
theorem ofDouble_eq {x : Float} {q : ℚ} (h : Double.shortest? x = some q) :
    ofDouble x = ofRat q := by
  unfold ofDouble
  rw [h]

theorem ofDouble_zero : ofDouble 0 = ofRat 0 := ofDouble_eq (by decide +kernel)

theorem ofDouble_one : ofDouble 1 = ofRat 1 := ofDouble_eq (by decide +kernel)

/-- **A power with a natural exponent is the product**, also for the base zero. -/
theorem power_ofRat_natCast (b : ℚ) (n : Nat) :
    power sys (ofRat b) (ofRat n) = ofRat (b ^ n) := by
  have settled : ∀ q : ℚ, (Algebraic.rational q).settle = .rational q := fun _ => rfl
  have signed : ∀ q : ℚ, (Algebraic.rational q).sign = q.num.sign := fun _ => rfl
  show finitePower sys (.rational b) (.rational n) = _
  unfold finitePower
  simp only [settled, signed, Rat.num_natCast, Int.sign_eq_zero_iff_zero, Rat.num_eq_zero]
  by_cases h0 : b = 0
  · rw [if_pos h0, h0]
    cases n with
    | zero => rfl
    | succ k =>
      have hk : ((k + 1 : Nat) : Int).sign = 1 := rfl
      rw [if_neg (by omega), hk, if_neg (by decide), zero_pow (by omega)]
  · rw [if_neg h0]
    by_cases h1 : b = 1
    · rw [if_pos (by rw [h1]), h1, one_pow]
    · rw [if_neg (fun e => h1 (Algebraic.rational.inj e))]
      by_cases hn : (n : ℚ) = 0
      · have hn' : n = 0 := by exact_mod_cast hn
        rw [if_pos hn, hn', pow_zero]
      · have hden : (n : ℚ).den = 1 := Rat.den_natCast n
        rw [if_neg hn, if_pos (Or.inr hden)]
        show finite (Algebraic.raiseRat b n) = _
        rw [Algebraic.raiseRat, if_pos hden, Rat.num_natCast, zpow_natCast]
        rfl

end Exact

/-- **A comparison of rational numbers is that of the order.** -/
theorem Arithmetic.compare_ofRat (r : Relation) (a b : ℚ) :
    (Arithmetic.exact sys).compare r (.ofRat a) (.ofRat b) = r.holdsFor a b := by
  have hsub : (Exact.ofRat a).sub (.ofRat b) = .ofRat (a - b) := Exact.sub_ofRat a b
  show r.holdsBySign (((Exact.ofRat a).sub (.ofRat b)).sign? sys) = _
  rw [hsub, Exact.sign?_ofRat]
  rcases lt_trichotomy a b with h | h | h
  · have hs : (a - b).num.sign = -1 := Int.sign_eq_neg_one_of_neg (Rat.num_neg.2 (sub_neg_of_lt h))
    rw [hs]
    cases r <;> simp [Relation.holdsBySign, Relation.holdsFor, h, h.le, h.ne, h.not_gt, h.not_ge]
  · rw [h, sub_self]
    cases r <;> simp [Relation.holdsBySign, Relation.holdsFor]
  · have hs : (a - b).num.sign = 1 := Int.sign_eq_one_of_pos (Rat.num_pos.2 (sub_pos_of_lt h))
    rw [hs]
    cases r <;> simp [Relation.holdsBySign, Relation.holdsFor, h, h.le, h.ne', h.not_gt, h.not_ge]

/-- A quotient of rational numbers divides by zero only if its divisor is zero. -/
theorem Arithmetic.quotient_ofRat (a b : ℚ) :
    (Arithmetic.exact sys).quotient (.ofRat a) (.ofRat b) =
    if b = 0 then .error .divisionByZero else .ok (.ofRat (a / b)) := by
  have hdiv : (Arithmetic.exact sys).divide? (.ofRat a) (.ofRat b) =
      if (Exact.ofRat b).sign? sys = some 0 then none
      else some ((Exact.ofRat a).div (.ofRat b)) := rfl
  unfold Arithmetic.quotient
  rw [hdiv, Exact.div_ofRat]
  by_cases h : b = 0
  · rw [if_pos ((Exact.sign?_ofRat_eq_zero_iff b).2 h), if_pos h]
  · rw [if_neg (mt (Exact.sign?_ofRat_eq_zero_iff b).1 h), if_neg h]

/-- The operators of the language in a ring. -/
def ArithOp.on {K : Type*} [Add K] [Sub K] [Mul K] : ArithOp → K → K → K
  | .plus, a, b => a + b
  | .minus, a, b => a - b
  | .times, a, b => a * b

theorem Arithmetic.apply_ofRat (op : ArithOp) (a b : ℚ) :
    (Arithmetic.exact sys).apply op (.ofRat a) (.ofRat b) = .ofRat (op.on a b) := by
  cases op with
  | plus => exact Exact.add_ofRat a b
  | minus => exact Exact.sub_ofRat a b
  | times => exact Exact.mul_ofRat a b

/-! ## 2. States -/

namespace Assignment

/-- The states of a table have the given rational values. -/
def Gives (v : Assignment Exact) (t : TruthTable) (s : Nat → ℚ) : Prop :=
  ∀ i < t.stateCount, v.state (i : Int) = some (.number (.ofRat (s i)))

/-- The assignment of rational values to all states and all real variables. -/
def ofRats (s : Nat → ℚ) (r : String → ℚ) : Assignment Exact :=
  ⟨fun i => some (.number (.ofRat (s i.toNat))), fun x => some (.number (.ofRat (r x)))⟩

variable {v : Assignment Exact} {t : TruthTable} {s : Nat → ℚ}

theorem gives_ofRats (t : TruthTable) (s : Nat → ℚ) (r : String → ℚ) : (ofRats s r).Gives t s :=
  fun _ _ => rfl

theorem sumFrom_ofRat (hv : v.Gives t s) (total : ℚ) {is : List Int}
    (h : ∀ i ∈ is, 0 ≤ i ∧ i < t.stateCount) :
    sumFrom (.exact sys) v (.ofRat total) is =
      .ok (.ofRat (total + (is.map fun i => s i.toNat).sum)) := by
  induction is generalizing total with
  | nil => rw [sumFrom, List.map_nil, List.sum_nil, add_zero]
  | cons i rest ih =>
    obtain ⟨h0, hlt⟩ := h i List.mem_cons_self
    obtain ⟨k, rfl⟩ := Int.eq_ofNat_of_zero_le h0
    have hsum := ih (total + s k) fun j hj => h j (List.mem_cons_of_mem _ hj)
    rw [sumFrom, hv k (by omega), List.map_cons, List.sum_cons, Int.toNat_natCast, ← add_assoc]
    exact hsum

/-- **A sum of states is the sum of their values.** -/
theorem sum_ofRat (hv : v.Gives t s) {is : List Int} (h : ∀ i ∈ is, 0 ≤ i ∧ i < t.stateCount) :
    v.sum (.exact sys) is = .ok (.ofRat (is.map fun i => s i.toNat).sum) := by
  have h0 := @sumFrom_ofRat sys _ _ _ hv 0 is h
  rw [zero_add] at h0
  have hz : (Arithmetic.exact sys).ofDouble 0 = .ofRat 0 := Exact.ofDouble_zero
  rw [sum, hz, h0]

end Assignment

namespace TruthTable

variable {t : TruthTable}

/-- The states add up as a list and as a range. -/
theorem sum_states {K : Type*} [AddCommMonoid K] (t : TruthTable) (s : Nat → K) :
    (t.states.map s).sum = ∑ i ∈ Finset.range t.stateCount, s i := by
  rw [states, ← List.sum_toFinset s List.nodup_range, List.toFinset_range]

/-- What the mass of a sentence comes to: one if it is true in all states, else the values of those
    in which it is. -/
def share (t : TruthTable) (s : Nat → ℚ) (S : Sentence) : ℚ :=
  if (t.dnf S).length = t.stateCount then 1 else ((t.dnf S).map s).sum

theorem mass_eq {v : Assignment Exact} {s : Nat → ℚ} (hv : v.Gives t s) (S : Sentence) :
    v.mass (.exact sys) t S = .ok (.ofRat (t.share s S)) := by
  have h1 : (Arithmetic.exact sys).ofDouble 1 = .ofRat 1 := Exact.ofDouble_one
  unfold Assignment.mass share
  simp only
  split
  · rw [h1]
  · rw [Assignment.sum_ofRat hv, List.map_map]
    · rfl
    · intro i hi
      obtain ⟨k, hk, rfl⟩ := List.mem_map.1 hi
      have := (mem_dnf.1 hk).1
      omega

end TruthTable

end Credal
