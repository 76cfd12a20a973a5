import Credal.Language.Variables

/-!
# Outcomes of an evaluation

An evaluation yields a value or fails: a variable has no value, or a divisor is zero. The failures
of two parts are brought together: a division by zero hides all else, and the lists of undeclared
variables are joined in order, each name once.

* `Failure`, `Outcome`: failures, and values or failures;
* `Variables.merge`: two lists of undeclared variables joined;
* `Outcome.combine`: two outcomes joined by an operation that may fail too.
-/

namespace Credal

/-- The variables of one list and then those of another, each once. -/
def Variables.merge (a b : Variables) : Variables :=
  ⟨distinct (a.reals ++ b.reals), distinct (a.letters ++ b.letters)⟩

/-- Why an evaluation has no value. -/
inductive Failure where
  | undeclared (v : Variables)
  | divisionByZero
  deriving DecidableEq, Repr

/-- The message of a failure. -/
def Failure.message : Failure → String
  | .undeclared v =>
    "undeclared variables: " ++ ", ".intercalate (v.reals ++ v.letters.map (·.text))
  | .divisionByZero => "Division by zero!"

/-- A value or a failure. -/
abbrev Outcome (α : Type) := Except Failure α

namespace Outcome

variable {α β γ : Type}

/-- What is left of two failures. -/
def joinFailures : Failure → Failure → Failure
  | .undeclared v, .undeclared w => .undeclared (v.merge w)
  | .undeclared _, .divisionByZero => .divisionByZero
  | .divisionByZero, _ => .divisionByZero

/-- The operation on the values of two outcomes, or what is left of their failures. -/
def combine (f : α → β → Outcome γ) : Outcome α → Outcome β → Outcome γ
  | .ok a, .ok b => f a b
  | .ok _, .error e => .error e
  | .error e, .ok _ => .error e
  | .error e, .error e' => .error (joinFailures e e')

end Outcome

end Credal
