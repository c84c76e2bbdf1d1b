import ArithExpr.Decimal.Numeral
import ArithExpr.Decimal.Shortest

/-!
# The text of a number

Numbers are written in positional notation with the fewest digits that read back, without a point
where they are whole. Main statement: the text of a finite number is a numeral that reads back to
it.
-/

namespace ArithExpr

/-- The text of a number without its sign. -/
def magnitudeText (bits : Nat) : List Char :=
  if bits = 0 then ['0']
  else if bits < Binary64.infinityBits then (Decimal.shortest bits).text
  else ['i', 'n', 'f']

/-- The text of a number. A NaN has no sign, a zero keeps its own. -/
def numberText (x : Float) : String :=
  if x.isNaN then "NaN"
  else if Binary64.isNegative x then String.ofList ('-' :: magnitudeText (Binary64.magnitude x))
  else String.ofList (magnitudeText (Binary64.magnitude x))

/-- The text of a finite number without its sign is a numeral that reads back to the number. -/
theorem bits_of_magnitudeText {bits : Nat} (finite : bits < Binary64.infinityBits) :
    (Decimal.ofText? (magnitudeText bits)).map Decimal.bits = some bits := by
  by_cases zero : bits = 0
  · rw [zero]
    decide +kernel
  · rw [magnitudeText, if_neg zero, if_pos finite, Decimal.bits_of_text,
      Decimal.bits_shortest finite]

end ArithExpr
