import Credal.Distinct
import Credal.Language.Sentence

/-!
# Sets of letters

A set of letters keeps them in the order in which they came.

* `Sentence.letters`: the letters of a sentence from left to right, repeated ones included;
* `LetterSet`: distinct letters in order of insertion, with `insert`, `contains`, `difference`,
  `ofList`;
* `LetterOrder`, `LetterOrder.byName`: an order in which letters may be listed;
* `LetterOrder.sort`: the letters of a list in that order, equal keys in the order in which they
  came.
-/

namespace Credal

/-- The letters of a sentence from left to right. -/
def Sentence.letters : Sentence → List Letter
  | .value _ => []
  | .letter l => [l]
  | .negation s => s.letters
  | .binary _ s t => s.letters ++ t.letters

/-! ## 1. Sets -/

/-- Distinct letters in the order in which they came. -/
structure LetterSet where
  letters : List Letter
  nodup : letters.Nodup

namespace LetterSet

/-- Whether a letter is in the set. -/
def contains (s : LetterSet) (l : Letter) : Bool := s.letters.contains l

/-- The set with a letter, at the end unless it is there. -/
def insert (s : LetterSet) (l : Letter) : LetterSet :=
  ⟨insertNew s.letters l, insertNew_nodup s.nodup l⟩

/-- The set of the letters of a list. -/
def ofList (ls : List Letter) : LetterSet := ⟨distinct ls, distinct_nodup ls⟩

/-- The letters of one set that are not in another. -/
def difference (s t : LetterSet) : LetterSet :=
  ⟨s.letters.filter (!t.contains ·), s.nodup.filter _⟩

/-- The letters in brackets. -/
def listText (ls : List Letter) : String :=
  "([" ++ ", ".intercalate (ls.map (·.text)) ++ "])"

/-- The text of a set. -/
def text (s : LetterSet) : String := "LetterSet" ++ listText s.letters

end LetterSet

/-! ## 2. Orders -/

/-- A total preorder of letters. -/
structure LetterOrder where
  compare : Letter → Letter → Ordering
  trans : Std.TransCmp compare

namespace LetterOrder

/-- By name, then by index. -/
def byName : LetterOrder :=
  ⟨compareLex (compareOn (·.id)) (compareOn (·.index)), inferInstance⟩

/-- Whether one letter may stand before another. -/
def le (o : LetterOrder) (a b : Letter) : Bool := (o.compare a b).isLE

/-- The letters in order; those that the order does not tell apart stay as they were. -/
def sort (o : LetterOrder) (ls : List Letter) : List Letter := ls.mergeSort o.le

theorem sort_perm (o : LetterOrder) (ls : List Letter) : (o.sort ls).Perm ls :=
  List.mergeSort_perm ls o.le

end LetterOrder

end Credal
