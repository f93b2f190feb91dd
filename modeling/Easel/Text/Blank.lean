/-!
# Blank characters

The characters that separate words: those with the Unicode property `White_Space`. The property is
a fixed table of 25 characters, wider than the blanks of ASCII.
-/

namespace Easel.Text

/-- The ranges of code points, ends included, with the property `White_Space`, in ascending order
and without overlaps. -/
def blankRanges : List (Nat × Nat) :=
  [(0x09, 0x0D), (0x20, 0x20), (0x85, 0x85), (0xA0, 0xA0), (0x1680, 0x1680), (0x2000, 0x200A),
    (0x2028, 0x2029), (0x202F, 0x202F), (0x205F, 0x205F), (0x3000, 0x3000)]

/-- A character with the property `White_Space`. -/
def isBlank (c : Char) : Bool :=
  blankRanges.any fun (first, last) => first ≤ c.toNat && c.toNat ≤ last

end Easel.Text
