import ArithExpr.Text.Alphabetic
import ArithExpr.Text.Blank
import ArithExpr.Token.Basic
import Mathlib.Tactic.Lemma

/-!
# Blanks, letters, digits and symbols

No character is of two of these classes, so the first character of a word tells what kind of word it
is, and a blank behind a word belongs to none.
-/

namespace ArithExpr
namespace Text

/-- A point in front of an ascending table is in none of its ranges. -/
lemma inRanges_of_lt {point : Nat} {range : Nat × Nat} (lt : point < range.1)
    (ranges : List (Nat × Nat)) : inRanges point (range :: ranges) = false := by
  rw [inRanges, decide_eq_false (Nat.not_le_of_lt lt), Bool.false_and]

/-- A blank lies in one of the ranges of the blanks. -/
lemma exists_range_of_isBlank {c : Char} (blank : isBlank c = true) :
    ∃ range ∈ blankRanges, range.1 ≤ c.toNat ∧ c.toNat ≤ range.2 :=
  (inRanges_iff (by decide) (by decide)).1 blank

/-- No letter stands among the blanks. -/
lemma alphabetic_of_mem_blankRanges :
    ∀ range ∈ blankRanges, ∀ i < range.2 + 1 - range.1,
      inRanges (range.1 + i) alphabeticRanges = false := by
  decide +kernel

/-- No blank is a letter. -/
lemma isAlphabetic_of_isBlank {c : Char} (blank : isBlank c = true) : isAlphabetic c = false := by
  obtain ⟨range, mem, low, high⟩ := exists_range_of_isBlank blank
  have apart := alphabetic_of_mem_blankRanges range mem (c.toNat - range.1) (by omega)
  rwa [Nat.add_sub_cancel' low] at apart

/-- The digits are the ten characters of their range. -/
lemma toNat_of_isDigit {c : Char} (digit : c.isDigit = true) :
    48 ≤ c.toNat ∧ c.toNat ≤ 57 := by
  simpa [Char.isDigit, UInt32.le_iff_toNat_le] using digit

/-- No blank is a digit. -/
lemma isDigit_of_isBlank {c : Char} (blank : isBlank c = true) : c.isDigit = false := by
  obtain ⟨range, mem, low, high⟩ := exists_range_of_isBlank blank
  refine Bool.eq_false_iff.2 fun digit => ?_
  have bounds := toNat_of_isDigit digit
  have apart : ∀ range ∈ blankRanges, range.2 < 48 ∨ 57 < range.1 := by decide
  have := apart range mem
  omega

/-- No digit is a letter. -/
lemma isAlphabetic_of_isDigit {c : Char} (digit : c.isDigit = true) : isAlphabetic c = false :=
  inRanges_of_lt (Nat.lt_of_le_of_lt (toNat_of_isDigit digit).2 (by decide)) _

end Text

/-- A symbol is neither a letter nor a digit, nor a point. -/
lemma Lexeme.class_of_ofSymbol? {c : Char} {lexeme} (symbol : ofSymbol? c = some lexeme) :
    Text.isBlank c = false ∧ Text.isAlphabetic c = false ∧ c.isDigit = false ∧ c ≠ '.' := by
  unfold ofSymbol? at symbol
  split at symbol
  all_goals first | decide | cases symbol

end ArithExpr
