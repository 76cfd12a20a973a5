/-!
# Powers of two

* `twoTo`: the power of two with a given exponent, with its recursion and its sign.
-/

namespace Credal.Number

/-- The power of two with the given exponent. -/
def twoTo (n : Nat) : Nat := Nat.pow 2 n

theorem twoTo_succ (n : Nat) : twoTo (n + 1) = twoTo n * 2 := rfl

theorem twoTo_pos (n : Nat) : 0 < twoTo n := by
  induction n with
  | zero => exact Nat.one_pos
  | succ n ih =>
    rw [twoTo_succ]
    omega

end Credal.Number
