import ArithExpr.Decimal.Numeral
import ArithExpr.Text.Alphabetic
import ArithExpr.Text.Blank
import ArithExpr.Token.Basic

/-!
# The first word of a text

Words are as long as possible: a run of alphabetic characters, a numeral, or one operator,
parenthesis or comma. Main statements: a cut loses no character, and a word that is found is not
empty.
-/

namespace ArithExpr

/-- What is cut off the front of a text: the characters taken, those left, and the word that the
taken ones are or what is wrong with them. -/
structure Cut where
  /-- The characters taken. -/
  taken : List Char
  /-- The characters left. -/
  rest : List Char
  /-- The word found, or a fault at an offset from the first character taken. -/
  outcome : Except LexError Lexeme

namespace Cut

/-- A word and what it leaves. -/
def word (taken rest : List Char) (lexeme : Lexeme) : Cut :=
  ⟨taken, rest, .ok lexeme⟩

/-- A fault behind the characters taken. -/
def fault (taken rest : List Char) (fault : LexFault) : Cut :=
  ⟨taken, rest, .error ⟨fault, taken.length⟩⟩

/-- Splits a text into the longest run of digits with at most one point in it at its front, and the
rest. -/
def mantissa (text : List Char) : List Char × List Char :=
  match text.dropWhile Char.isDigit with
  | '.' :: tail =>
    (text.takeWhile Char.isDigit ++ '.' :: tail.takeWhile Char.isDigit, tail.dropWhile Char.isDigit)
  | tail => (text.takeWhile Char.isDigit, tail)

/-- Splits a text into a sign at its front, if there is one, and the rest. -/
def sign : List Char → List Char × List Char
  | '+' :: tail => (['+'], tail)
  | '-' :: tail => (['-'], tail)
  | text => ([], text)

/-- The word of a numeral that was taken, with its number. A numeral without a number would be a
fault where it starts. -/
def numberWord (taken rest : List Char) : Cut :=
  match Decimal.ofText? taken with
  | some d => word taken rest (.number d.toFloat)
  | none => ⟨taken, rest, .error ⟨.malformedNumber (taken.headD '.'), 0⟩⟩

/-- Cuts a numeral off a text that starts with a digit, or with a point and a digit. A second point
and an exponent without digits are faults. -/
def numeral (text : List Char) : Cut :=
  let (head, rest) := mantissa text
  match rest with
  | [] => numberWord head []
  | c :: tail =>
    if c = '.' then fault head rest (.malformedNumber c)
    else if c = 'e' ∨ c = 'E' then
      let (signs, tail) := sign tail
      match tail.takeWhile Char.isDigit with
      | [] => fault (head ++ c :: signs) tail (.malformedExponent tail.head?)
      | digits => numberWord (head ++ c :: signs ++ digits) (tail.dropWhile Char.isDigit)
    else numberWord head rest

/-- Cuts a run of alphabetic characters off the front of a text. -/
def name (text : List Char) : Cut :=
  let letters := text.takeWhile Text.isAlphabetic
  word letters (text.dropWhile Text.isAlphabetic) (.name (String.ofList letters))

/-- Whether a numeral starts at the front of a text. -/
def startsNumeral : List Char → Bool
  | '.' :: c :: _ => c.isDigit
  | c :: _ => c.isDigit
  | [] => false

/-- Cuts the first word off a text without leading blanks, or nothing where none starts. -/
def first (c : Char) (tail : List Char) : Cut :=
  if startsNumeral (c :: tail) then numeral (c :: tail)
  else if Text.isAlphabetic c then name (c :: tail)
  else match Lexeme.ofSymbol? c with
    | some lexeme => word [c] tail lexeme
    | none => fault [] (c :: tail) (.unexpectedCharacter c)

/-- Splitting off a mantissa loses no character. -/
theorem mantissa_append (text : List Char) : (mantissa text).1 ++ (mantissa text).2 = text := by
  have whole : text.takeWhile Char.isDigit ++ text.dropWhile Char.isDigit = text :=
    List.takeWhile_append_dropWhile
  unfold mantissa
  split
  next tail eq =>
    rw [eq] at whole
    simp only [List.append_assoc, List.cons_append, List.takeWhile_append_dropWhile]
    exact whole
  next => exact whole

/-- Splitting off a sign loses no character. -/
theorem sign_append (text : List Char) : (sign text).1 ++ (sign text).2 = text := by
  unfold sign
  split <;> rfl

/-- Reading a number loses no character. -/
theorem numberWord_append (taken rest : List Char) :
    (numberWord taken rest).taken ++ (numberWord taken rest).rest = taken ++ rest := by
  unfold numberWord
  split <;> rfl

/-- Cutting off a numeral loses no character. -/
theorem numeral_append (text : List Char) :
    (numeral text).taken ++ (numeral text).rest = text := by
  have whole := mantissa_append text
  unfold numeral
  split
  next head rest eq =>
    rw [eq] at whole
    split
    next => rw [numberWord_append]; exact whole
    next c tail =>
      split
      next => exact whole
      next =>
        split
        next =>
          split
          next signs behind signEq =>
            have signs_append := sign_append tail
            rw [signEq] at signs_append
            split
            next => simp only [fault, List.append_assoc, List.cons_append, signs_append, whole]
            next digits digitsEq =>
              rw [numberWord_append]
              have : behind.takeWhile Char.isDigit ++ behind.dropWhile Char.isDigit = behind :=
                List.takeWhile_append_dropWhile
              simp only [List.append_assoc, List.cons_append, this, signs_append, whole]
        next => rw [numberWord_append]; exact whole

/-- A cut loses no character. -/
theorem first_append (c : Char) (tail : List Char) :
    (first c tail).taken ++ (first c tail).rest = c :: tail := by
  unfold first
  split
  next => exact numeral_append _
  next =>
    split
    next => exact List.takeWhile_append_dropWhile
    next => split <;> rfl

/-- A word that is found has characters. -/
def Proper (cut : Cut) : Prop :=
  ∀ lexeme, cut.outcome = .ok lexeme → cut.taken ≠ []

/-- A word of some characters is a proper one. -/
theorem proper_word {taken rest : List Char} {lexeme : Lexeme} (nonempty : taken ≠ []) :
    (word taken rest lexeme).Proper :=
  fun _ _ => nonempty

/-- A fault finds no word. -/
theorem proper_fault {taken rest : List Char} {reason : LexFault} :
    (fault taken rest reason).Proper :=
  fun _ found => nomatch found

/-- What starts like a numeral has a mantissa. -/
theorem mantissa_ne_nil {text : List Char} (starts : startsNumeral text = true) :
    (mantissa text).1 ≠ [] := by
  unfold startsNumeral at starts
  split at starts
  next c tail => simp [mantissa, List.dropWhile_cons, Char.isDigit]
  next c tail _ =>
    unfold mantissa
    split <;> simp [starts]
  next => contradiction

/-- A number read from some characters is a proper word. -/
theorem proper_numberWord {taken rest : List Char} (nonempty : taken ≠ []) :
    (numberWord taken rest).Proper := by
  unfold numberWord
  split
  next => exact proper_word nonempty
  next => exact fun _ found => nomatch found

/-- A numeral where one starts is a proper word. -/
theorem proper_numeral {text : List Char} (starts : startsNumeral text = true) :
    (numeral text).Proper := by
  have nonempty := mantissa_ne_nil starts
  unfold numeral
  split
  next head rest eq =>
    rw [eq] at nonempty
    split
    next => exact proper_numberWord nonempty
    next c tail =>
      split
      next => exact proper_fault
      next =>
        split
        next =>
          split
          next signs behind signEq =>
            split
            next => exact proper_fault
            next => exact proper_numberWord (by simp)
        next => exact proper_numberWord nonempty

/-- A word that is found is not empty. -/
theorem proper_first (c : Char) (tail : List Char) : (first c tail).Proper := by
  unfold first
  split
  next starts => exact proper_numeral starts
  next =>
    split
    next letter => exact proper_word (by simp [letter])
    next =>
      split
      next => exact proper_word (by simp)
      next => exact proper_fault

/-- What a word leaves is shorter than the text it was cut off. -/
theorem first_shorter {c : Char} {tail : List Char} {lexeme : Lexeme}
    (ok : (first c tail).outcome = .ok lexeme) :
    (first c tail).rest.length < (c :: tail).length := by
  rw [← first_append c tail, List.length_append]
  have := List.length_pos_iff.2 (proper_first c tail _ ok)
  omega

end Cut
end ArithExpr
