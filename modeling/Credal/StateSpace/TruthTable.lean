import Credal.Json.Display
import Credal.Number.Power
import Credal.StateSpace.LetterSet
import Credal.StateSpace.Truth

/-!
# Truth tables

The states of `n` letters are the numbers below `2 ^ n`. Read with `n` binary digits, the leading
one first, the digits belong to the letters in their order, and a letter is true where its digit
is 0; so state 0 makes every letter true. Without letters there is one state.

* `TruthTable`, `TruthTable.ofLetters`: the table of some letters in some order;
* `holdsAt`: the truth value of a letter in a state;
* `dnf`: the states in which a sentence is true, ascending;
* `matchesAny`: whether a valuation is one of the listed states;
* `sentenceOf`: the sentence that is true in one state only;
* `Asked`, `OutOfRange`: asking for a state by a value that may be none.
-/

namespace Credal

/-- The letters of a state space, each once. -/
structure TruthTable where
  letters : List Letter
  nodup : letters.Nodup

/-- A value that asks for a state: how it is shown, and its index if it has one. -/
structure Asked where
  shown : String
  index? : Option Int
  deriving DecidableEq, Repr

namespace Asked

/-- Asking by an integer. -/
def ofInt (i : Int) : Asked := ⟨Number.intText i, some i⟩

/-- Asking by any value: integers are indices, and the truth values stand for 0 and 1. -/
def ofJson (j : Json) : Asked :=
  ⟨j.shown, match j with
    | .int i => some i
    | .bool b => some (if b then 1 else 0)
    | _ => none⟩

end Asked

/-- A value was asked for as a state of a table with `count` states and is none. -/
structure OutOfRange where
  asked : String
  count : Nat
  deriving DecidableEq, Repr

/-- The message about a value that is no state. -/
def OutOfRange.message (e : OutOfRange) : String :=
  "state index " ++ e.asked ++ " out of range [0, " ++ Number.intText e.count ++ ")"

namespace TruthTable

/-- The table of the letters of a list, in the given order. -/
def ofLetters (o : LetterOrder) (ls : List Letter) : TruthTable :=
  let set := LetterSet.ofList ls
  ⟨o.sort set.letters, (o.sort_perm set.letters).nodup_iff.2 set.nodup⟩

/-- The number of letters. -/
def letterCount (t : TruthTable) : Nat := t.letters.length

/-- The number of states. -/
def stateCount (t : TruthTable) : Nat := Number.twoTo t.letterCount

/-- The states in ascending order. -/
def states (t : TruthTable) : List Nat := List.range t.stateCount

/-- The text of a table. -/
def text (t : TruthTable) : String := "TruthTable" ++ LetterSet.listText t.letters

/-! ## 1. Letters in states -/

/-- Whether a letter is true in a state; one that is not in the table is false. -/
def holdsAt (t : TruthTable) (i : Nat) (l : Letter) : Bool :=
  match t.letters.idxOf? l with
  | some k => !i.testBit (t.letterCount - 1 - k)
  | none => false

/-- The states in which a sentence is true, ascending. -/
def dnf (t : TruthTable) (s : Sentence) : List Nat :=
  t.states.filter fun i => s.holds (t.holdsAt i)

/-- Whether a valuation gives every letter of the table its value in a state. -/
def agrees (t : TruthTable) (v : Valuation) (i : Nat) : Bool :=
  t.letters.all fun l => v l == t.holdsAt i l

/-- The conjunction of sentences, nested to the right; of none, the true one. -/
def conjunctionOf : List Sentence → Sentence
  | [] => .value true
  | [s] => s
  | s :: rest => .binary .conjunction s (conjunctionOf rest)

/-- A letter or its negation, as it is true or false in a state. -/
def literalAt (t : TruthTable) (i : Nat) (l : Letter) : Sentence :=
  if t.holdsAt i l then .letter l else .negation (.letter l)

/-- The sentence that is true in one state and in no other. -/
def sentenceOf (t : TruthTable) (i : Nat) : Sentence :=
  conjunctionOf (t.letters.map (t.literalAt i))

/-! ## 2. Asking for a state -/

/-- The state of an index, if the table has it. -/
def state? (t : TruthTable) (i : Int) : Option Nat :=
  if 0 ≤ i ∧ i < t.stateCount then some i.toNat else none

/-- The state that is asked for. -/
def stateOf (t : TruthTable) (asked : Asked) : Except OutOfRange Nat :=
  match asked.index?.bind t.state? with
  | some i => .ok i
  | none => .error ⟨asked.shown, t.stateCount⟩

/-- Whether a letter is true in the state asked for. -/
def letterValue (t : TruthTable) (l : Letter) (asked : Asked) : Except OutOfRange Bool := do
  .ok (t.holdsAt (← t.stateOf asked) l)

/-- The sentence that is true in the state asked for only. -/
def stateSentence (t : TruthTable) (asked : Asked) : Except OutOfRange Sentence := do
  .ok (t.sentenceOf (← t.stateOf asked))

/-- Whether a valuation is one of the states asked for; those after the first that it is are not
    looked at. -/
def matchesAny (t : TruthTable) (v : Valuation) : List Asked → Except OutOfRange Bool
  | [] => .ok false
  | asked :: rest => do
    if t.agrees v (← t.stateOf asked) then .ok true else matchesAny t v rest

end TruthTable

end Credal
