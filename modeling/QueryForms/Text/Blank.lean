/-!
# Blank characters

The characters with the Unicode property `White_Space`. They are what surrounds a text without
being part of it: a context of blanks alone is no context, and a day may have blanks before each
of its numbers.
-/

namespace QueryForms.Text

/-- The ranges of code points with the property `White_Space`. -/
def blankRanges : List (Nat × Nat) :=
  [(0x9, 0xd), (0x20, 0x20), (0x85, 0x85), (0xa0, 0xa0), (0x1680, 0x1680), (0x2000, 0x200a),
   (0x2028, 0x2029), (0x202f, 0x202f), (0x205f, 0x205f), (0x3000, 0x3000)]

/-- Whether a character is blank. -/
def isBlank (c : Char) : Bool :=
  blankRanges.any fun (first, last) => first ≤ c.toNat && c.toNat ≤ last

/-- The text from its first character that is not blank. -/
def dropBlanks (cs : List Char) : List Char :=
  cs.dropWhile isBlank

end QueryForms.Text
