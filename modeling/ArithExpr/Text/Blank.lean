import ArithExpr.Text.Ranges

/-!
# Blanks

The Unicode property White_Space. Blanks separate tokens and mean nothing else.
-/

namespace ArithExpr.Text

/-- The maximal ranges of code points with the property White_Space, in ascending order. -/
def blankRanges : List (Nat × Nat) := [
  (0x9, 0xD), (0x20, 0x20), (0x85, 0x85), (0xA0, 0xA0), (0x1680, 0x1680), (0x2000, 0x200A),
  (0x2028, 0x2029), (0x202F, 0x202F), (0x205F, 0x205F), (0x3000, 0x3000)
]

/-- Whether a character has the Unicode property White_Space. -/
def isBlank (c : Char) : Bool :=
  inRanges c.toNat blankRanges

end ArithExpr.Text
