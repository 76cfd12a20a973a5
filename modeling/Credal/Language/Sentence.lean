import Credal.Number.Layout

/-!
# Sentences

Propositional sentences over letters. Two letters are the same proposition exactly when both their
name and their index agree, so `A` with index 1 and `A1` with index 0 print alike and differ.

* `Letter`, `Letter.text`: letters;
* `Connective`, `Connective.holds`: the four binary connectives and their truth tables, shared by
  sentences and constraints;
* `Sentence`: sentences.
-/

namespace Credal

/-- An atomic letter. -/
structure Letter where
  id : String
  index : Int := 0
  deriving DecidableEq, Repr, Inhabited

/-- The name of a letter, with its index if that is positive. -/
def Letter.text (l : Letter) : String :=
  if 0 < l.index then l.id ++ Number.intText l.index else l.id

/-- A binary connective. -/
inductive Connective where
  | conjunction
  | disjunction
  | conditional
  | biconditional
  deriving DecidableEq, Repr

namespace Connective

/-- The truth value of a compound from those of its sides. -/
def holds : Connective → Bool → Bool → Bool
  | .conjunction, a, b => a && b
  | .disjunction, a, b => a || b
  | .conditional, a, b => !a || b
  | .biconditional, a, b => a == b

/-- The sign of a connective. -/
def symbol : Connective → String
  | .conjunction => "&"
  | .disjunction => "∨"
  | .conditional => "→"
  | .biconditional => "↔"

end Connective

/-- A propositional sentence. -/
inductive Sentence where
  | value (b : Bool)
  | letter (l : Letter)
  | negation (s : Sentence)
  | binary (k : Connective) (left right : Sentence)
  deriving DecidableEq, Repr, Inhabited

end Credal
