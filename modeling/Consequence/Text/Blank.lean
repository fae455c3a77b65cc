/-!
# Blank characters

A name may hold no blank, and blank means the Unicode property `White_Space`: the ASCII
controls from tab to carriage return and the space, and the separators beyond ASCII down to the
ideographic space. Characters that only look empty, such as the zero width space U+200B, are
not in the property and so are no blanks here.
-/

namespace Consequence.Text

/-- The ranges of the property, both ends included. -/
def blankRanges : List (Nat × Nat) :=
  [(0x09, 0x0d), (0x20, 0x20), (0x85, 0x85), (0xa0, 0xa0), (0x1680, 0x1680), (0x2000, 0x200a),
    (0x2028, 0x2029), (0x202f, 0x202f), (0x205f, 0x205f), (0x3000, 0x3000)]

def isBlank (c : Char) : Bool :=
  blankRanges.any fun range => range.1 ≤ c.toNat && c.toNat ≤ range.2

end Consequence.Text
