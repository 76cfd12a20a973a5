/-!
# Blanks

The characters that separate tokens and that may surround a numeral: the Unicode spaces, the line
and paragraph separators, and the ASCII controls that separate (tab to carriage return and the
four information separators).

* `blankRanges`, `isBlank`: the class;
* `trimEnd`, `trim`: a text without its trailing blanks, or without those of both ends.
-/

namespace Credal.Text

/-- The ranges (both ends included) of the blank characters. -/
def blankRanges : List (Nat × Nat) :=
  [(0x9, 0xD), (0x1C, 0x20), (0x85, 0x85), (0xA0, 0xA0), (0x1680, 0x1680), (0x2000, 0x200A),
    (0x2028, 0x2029), (0x202F, 0x202F), (0x205F, 0x205F), (0x3000, 0x3000)]

/-- Whether the character is a blank. -/
def isBlank (c : Char) : Bool :=
  blankRanges.any fun r => r.1 ≤ c.toNat && c.toNat ≤ r.2

/-- The text without its trailing blanks. -/
def trimEnd (cs : List Char) : List Char :=
  (cs.reverse.dropWhile isBlank).reverse

/-- The text without the blanks at either end. -/
def trim (cs : List Char) : List Char :=
  trimEnd (cs.dropWhile isBlank)

end Credal.Text
