import ArithExpr.Decimal.Basic

/-!
# Reading numerals

A numeral has digits with at most one point among them and at least one digit, and may end in an
exponent: `e` or `E`, a sign or none, and digits. Main statement: what is written in positional
notation is a numeral for the same number.
-/

namespace ArithExpr.Decimal

/-- The number that a run of digits stands for. -/
def ofDigits (digits : List Char) : Nat :=
  Nat.ofDigitChars 10 digits 0

/-- Reads a text that holds digits only, at least one. -/
def digits? (text : List Char) : Option Int :=
  if text ≠ [] ∧ text.all Char.isDigit then some (ofDigits text) else none

/-- Reads what follows the mark of an exponent. -/
def signedDigits? : List Char → Option Int
  | '-' :: text => (digits? text).map (- ·)
  | '+' :: text => digits? text
  | text => digits? text

/-- Reads the exponent of a numeral; a numeral without one has the exponent zero. -/
def exponent? : List Char → Option Int
  | [] => some 0
  | c :: text => if c = 'e' ∨ c = 'E' then signedDigits? text else none

/-- Splits a text into the digits behind a point at its front and the rest. -/
def fraction : List Char → List Char × List Char
  | '.' :: text => (text.takeWhile Char.isDigit, text.dropWhile Char.isDigit)
  | text => ([], text)

/-- Reads a numeral. -/
def ofText? (text : List Char) : Option Decimal :=
  let whole := text.takeWhile Char.isDigit
  let parts := fraction (text.dropWhile Char.isDigit)
  if whole = [] ∧ parts.1 = [] then none
  else (exponent? parts.2).map fun e => ⟨ofDigits (whole ++ parts.1), e - parts.1.length⟩

/-- The decimal digits of a number are digits. -/
theorem isDigit_toDigits (n : Nat) : ∀ c ∈ Nat.toDigits 10 n, c.isDigit = true :=
  fun _ => Nat.isDigit_of_mem_toDigits (by decide) (by decide)

/-- The zeros in front of a number are digits too. -/
theorem isDigit_paddedDigits (places n : Nat) : ∀ c ∈ paddedDigits places n, c.isDigit = true := by
  intro c mem
  rcases List.mem_append.1 mem with zero | digit
  · rw [List.eq_of_mem_replicate zero]
    decide
  · exact isDigit_toDigits n c digit

/-- A number that fits into some places is padded to as many. -/
theorem length_paddedDigits {places n : Nat} (pos : 0 < places) (fits : n < 10 ^ places) :
    (paddedDigits places n).length = places := by
  have := (Nat.length_toDigits_le_iff (by decide) pos).2 fits
  simp only [paddedDigits, List.length_append, List.length_replicate]
  omega

/-- Behind other digits a padded number is added to them, moved up by its places. -/
theorem ofDigits_append_padded {places n : Nat} (whole : List Char) (pos : 0 < places)
    (fits : n < 10 ^ places) :
    ofDigits (whole ++ paddedDigits places n) = ofDigits whole * 10 ^ places + n := by
  have length := length_paddedDigits pos fits
  have padded : ofDigits (paddedDigits places n) = n := by
    simp [ofDigits, paddedDigits, Nat.ofDigitChars_append]
  rw [ofDigits, Nat.ofDigitChars_append, Nat.ofDigitChars_eq_ofDigitChars_zero, length]
  rw [ofDigits] at padded
  rw [padded, ofDigits, Nat.mul_comm]

/-- A run of digits is a numeral. -/
theorem ofText?_digits {digits : List Char} (nonempty : digits ≠ [])
    (all : ∀ c ∈ digits, c.isDigit = true) : ofText? digits = some ⟨ofDigits digits, 0⟩ := by
  have taken : digits.takeWhile Char.isDigit = digits := by
    simpa using @List.takeWhile_append_of_pos _ Char.isDigit _ [] all
  have rest : digits.dropWhile Char.isDigit = [] := by
    simpa using @List.dropWhile_append_of_pos _ Char.isDigit _ [] all
  simp [ofText?, taken, rest, fraction, exponent?, nonempty]

/-- Two runs of digits with a point between them are a numeral. -/
theorem ofText?_point {whole part : List Char} (nonempty : whole ≠ [])
    (allWhole : ∀ c ∈ whole, c.isDigit = true) (allPart : ∀ c ∈ part, c.isDigit = true) :
    ofText? (whole ++ '.' :: part) = some ⟨ofDigits (whole ++ part), 0 - part.length⟩ := by
  have taken : (whole ++ '.' :: part).takeWhile Char.isDigit = whole := by
    simp [List.takeWhile_append_of_pos allWhole, Char.isDigit]
  have rest : (whole ++ '.' :: part).dropWhile Char.isDigit = '.' :: part := by
    simp [List.dropWhile_append_of_pos allWhole, Char.isDigit]
  have partTaken : part.takeWhile Char.isDigit = part := by
    simpa using @List.takeWhile_append_of_pos _ Char.isDigit _ [] allPart
  have partRest : part.dropWhile Char.isDigit = [] := by
    simpa using @List.dropWhile_append_of_pos _ Char.isDigit _ [] allPart
  simp [ofText?, taken, rest, fraction, partTaken, partRest, exponent?, nonempty]

/-- What is written in positional notation is a numeral for the same number. -/
theorem bits_of_text (d : Decimal) : (ofText? d.text).map bits = some d.bits := by
  obtain ⟨digits, exponent⟩ := d
  cases exponent with
  | ofNat power =>
    have nonempty : Nat.toDigits 10 (digits * 10 ^ power) ≠ [] :=
      List.length_pos_iff.1 Nat.length_toDigits_pos
    have read := ofText?_digits nonempty (isDigit_toDigits _)
    simp only [text, read, Option.map_some, Option.some.injEq, bits_eq_ofRatio]
    simp [ratio, ofDigits]
  | negSucc power =>
    have nonempty : Nat.toDigits 10 (digits / 10 ^ (power + 1)) ≠ [] :=
      List.length_pos_iff.1 Nat.length_toDigits_pos
    have fits : digits % 10 ^ (power + 1) < 10 ^ (power + 1) :=
      Nat.mod_lt _ (Nat.pow_pos (by decide))
    have read := ofText?_point nonempty (isDigit_toDigits _)
      (isDigit_paddedDigits (power + 1) (digits % 10 ^ (power + 1)))
    rw [ofDigits_append_padded _ (Nat.succ_pos _) fits,
      length_paddedDigits (Nat.succ_pos _) fits] at read
    have whole : ofDigits (Nat.toDigits 10 (digits / 10 ^ (power + 1))) =
        digits / 10 ^ (power + 1) := Nat.ofDigitChars_ten_toDigits
    have exponent : (0 : Int) - (power + 1 : Nat) = Int.negSucc power := by omega
    rw [whole, Nat.div_add_mod', exponent] at read
    simp only [text, read, Option.map_some]

end ArithExpr.Decimal
