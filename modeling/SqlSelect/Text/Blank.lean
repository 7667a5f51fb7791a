/-!
# Blank characters

The characters with the Unicode property `White_Space`. The property has 25 members, and its
ASCII part is the six characters from tab to carriage return and the space.
-/

namespace SqlSelect

/-- The ranges of code points with the property `White_Space`, both ends included. -/
def blankRanges : List (Nat × Nat) :=
  [(0x09, 0x0d), (0x20, 0x20), (0x85, 0x85), (0xa0, 0xa0), (0x1680, 0x1680), (0x2000, 0x200a),
    (0x2028, 0x2029), (0x202f, 0x202f), (0x205f, 0x205f), (0x3000, 0x3000)]

/-- Whether a character has the property `White_Space`. -/
def isBlank (c : Char) : Bool :=
  blankRanges.any fun range => range.1 ≤ c.toNat && c.toNat ≤ range.2

/-- A text without the blank characters at its start. -/
def skipBlanks (text : List Char) : List Char := text.dropWhile isBlank

end SqlSelect
