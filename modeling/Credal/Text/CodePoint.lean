/-!
# Code points

The code points from U+D800 to U+DFFF are no characters. In UTF-16 one of the first half of them
and one of the second half stand for a character past U+FFFF together; a half that stands alone
stands for nothing, but a text in code points may hold it.

* `isHighHalf`, `isLowHalf`, `isHalf`: the halves of a pair;
* `pairPoint`: the code point of a pair;
* `characters?`: the characters of code points among which there is no half;
* `nearestText`: the same with the replacement character in the place of halves.
-/

namespace Credal.Text

/-- Whether a code point opens a pair. -/
def isHighHalf (p : Nat) : Bool := 0xD800 ≤ p && p ≤ 0xDBFF

/-- Whether a code point closes a pair. -/
def isLowHalf (p : Nat) : Bool := 0xDC00 ≤ p && p ≤ 0xDFFF

/-- Whether a code point is half of a pair. -/
def isHalf (p : Nat) : Bool := isHighHalf p || isLowHalf p

/-- The code point of a pair. -/
def pairPoint (high low : Nat) : Nat := 0x10000 + (high - 0xD800) * 0x400 + (low - 0xDC00)

/-- The characters of code points; none if there is a half of a pair. -/
def characters? (ps : List Nat) : Option (List Char) :=
  if ps.any isHalf then none else some (ps.map Char.ofNat)

/-- A text as near to code points as texts get: the replacement character stands for a half. -/
def nearestText (ps : List Nat) : String :=
  String.ofList (ps.map fun p => if isHalf p then '\uFFFD' else Char.ofNat p)

end Credal.Text
