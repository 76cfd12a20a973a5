import Credal.Number.Layout
import Credal.Text.Quoted

/-!
# Random choices

Everything random is drawn from a source, whatever it is: doubles from zero up to one, and numbers
below a bound. A generator hands the source on and may fail, keeping what it has drawn.

* `Source`: a source of draws;
* `Gen`, `GenFault`: generators and why they fail;
* `Gen.unit`, `Gen.below`, `Gen.pick`, `Gen.coin`, `Gen.uniform`: one draw each;
* `congruential`: a source that multiplies and adds.
-/

namespace Credal

/-- A source of random numbers: a double from zero up to one, and a number below `n`. -/
structure Source (σ : Type) where
  unit : σ → Float × σ
  below (n : Nat) : 0 < n → σ → Fin n × σ

/-- Why nothing was generated. -/
inductive GenFault where
  /-- Every shape that may be used has children. -/
  | noTerminals (names : List String)
  | negativeDepth (depth : Int)
  | letterCount (count : Int)
  | noLetters
  deriving DecidableEq, Repr

/-- The message of a fault. -/
def GenFault.message : GenFault → String
  | .noTerminals names =>
    "No accessible terminals in generator! shapes: ["
      ++ ", ".intercalate ((names.mergeSort fun a b => a ≤ b).map Text.quoted) ++ "]"
  | .negativeDepth d => "Trying to generate a tree with depth " ++ Number.intText d ++ " < 0"
  | .letterCount n => "n_letters must be in [1, 26], got " ++ Number.intText n
  | .noLetters => "Unable to generate sentence without at least one letter to choose from"

/-- A generator: from a state of the source to a value or a fault and the state after it. -/
abbrev Gen (σ α : Type) := ExceptT GenFault (StateM σ) α

namespace Gen

variable {σ α : Type}

/-- A double from zero up to one. -/
def unit (R : Source σ) : Gen σ Float := ExceptT.lift (modifyGet R.unit : StateM σ _)

/-- A number below `n`. -/
def below (R : Source σ) (n : Nat) (h : 0 < n) : Gen σ (Fin n) :=
  ExceptT.lift (modifyGet (R.below n h) : StateM σ _)

/-- An item of a list. -/
def pick (R : Source σ) (xs : List α) (h : xs ≠ []) : Gen σ α := do
  let i ← below R xs.length (List.length_pos_iff.2 h)
  pure xs[i]

/-- True if the draw is in the lower half. -/
def coin (R : Source σ) : Gen σ Bool := do
  let x ← unit R
  pure (x < 0.5)

/-- A double from zero up to `width`. -/
def uniform (R : Source σ) (width : Float) : Gen σ Float := do
  let x ← unit R
  pure (width * x)

/-- What is generated for each argument in turn, from one source. -/
def each {δ : Type} (g : δ → Gen σ α) : List δ → StateM σ (List (Except GenFault α))
  | [] => pure []
  | d :: rest => do
    let r ← (g d).run
    pure (r :: (← each g rest))

end Gen

/-- The numbers of the congruential source are below `2 ^ 31`. -/
abbrev drawBound : Nat := 2147483648

/-- The state that follows one, multiplied and added to modulo `2 ^ 64`, and the number drawn from
    its upper bits. -/
def congruentialStep (s : UInt64) : Fin drawBound × UInt64 :=
  let s := s * 6364136223846793005 + 1442695040888963407
  (Fin.ofNat drawBound (s >>> 33).toNat, s)

/-- A source that draws from the upper bits of its state. -/
def congruential : Source UInt64 where
  unit s :=
    let (d, s) := congruentialStep s
    (Float.ofNat d.val / Float.ofNat drawBound, s)
  below n h s :=
    let (d, s) := congruentialStep s
    (⟨d.val % n, Nat.mod_lt _ h⟩, s)

end Credal
