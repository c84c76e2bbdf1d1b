import ArithExpr.Proofs.Token.Requests

/-!
# Errors of a lexer point into its text

An error of a lexer is about the character at its place, or about the end of the text if there is
none. A number with two points is the only one that is malformed: the characters that the lexer
takes for a numeral always have a number (`Cut.exists_ofText?_of_first`). Main statement: this is so
for every error, in whatever order a lexer is asked and also behind other errors
(`Lexer.error_in_text`).
-/

namespace ArithExpr
namespace Cut

/-- A fault is about the first character that is left. -/
lemma Fails.character_eq {taken rest fault} (fails : Fails taken rest fault) :
    fault.character = rest.head? := by
  cases fails with
  | unexpectedCharacter => rfl
  | secondPoint => rfl
  | exponent => rfl

/-- A malformed number is one in front of a second point. -/
lemma Fails.exists_point {taken rest found} (fails : Fails taken rest (.malformedNumber found)) :
    found = '.' ∧ Mantissa taken ∧ '.' ∈ taken ∧ ∃ tail, rest = '.' :: tail := by
  cases fails with
  | secondPoint mantissa point => exact ⟨rfl, mantissa, point, _, rfl⟩

/-- What is taken for a numeral has a number. -/
theorem exists_ofText?_of_first {c tail taken rest} (same : first c tail = numberWord taken rest) :
    ∃ d, Decimal.ofText? taken = some d := by
  cases reads : Decimal.ofText? taken with
  | some d => exact ⟨d, rfl⟩
  | none =>
    -- without a number the fault would be where the numeral starts, and not behind what was taken
    have unread : first c tail = ⟨taken, rest, .error ⟨.malformedNumber (taken.headD '.'), 0⟩⟩ := by
      rw [same, numberWord, reads]
    obtain ⟨fails, behind⟩ := fails_of_first (congrArg outcome unread)
    rw [unread] at fails behind
    obtain ⟨-, -, point, -⟩ := fails.exists_point
    rw [List.eq_nil_of_length_eq_zero behind.symm] at point
    cases point

end Cut

namespace Lexer

/-- Whenever a lexer answers with an error, that is at a place of its text or at the end, and about
the character there, which is none only at the end. A malformed number has a point, and the error is
at a second one right behind it. There is no other such number, because what is taken for a numeral
always has one. -/
theorem error_in_text (text : String) :
    (∀ requests request error,
      let lexer := ((start text).run requests).2
      let here := lexer.cursor.skipBlanks.position
      (lexer.answer request).1 = some (.error error) →
      error.position ≤ text.length ∧
      error.value.character = text.toList[error.position]? ∧
      (error.value.character = none ↔ error.position = text.length) ∧
      ∀ found, error.value = .malformedNumber found →
        found = '.' ∧ ∃ number tail, text.toList.drop here = number ++ '.' :: tail ∧
          Cut.Mantissa number ∧ '.' ∈ number ∧ error.position = here + number.length) ∧
    ∀ c tail taken rest, Cut.first c tail = Cut.numberWord taken rest →
      ∃ d, Decimal.ofText? taken = some d := by
  refine ⟨?_, fun _ _ _ _ => Cut.exists_ofText?_of_first⟩
  intro requests request error lexer here failed
  have within : lexer.cursor.Within text.toList :=
    run_keeps (fun _ => .next) (.start text) requests
  have found := next_of_answer failed
  obtain ⟨taken, whole, fails, place, behind⟩ := Cursor.exists_fails_of_next found
  have stop := within.next
  rw [found] at stop
  have inside := stop.position_add
  simp only [← place] at behind inside
  have character : error.value.character = text.toList[error.position]? := by
    rw [fails.character_eq, stop.rest_eq, ← place, List.head?_drop]
  rw [String.length_toList] at inside
  refine ⟨by omega, character, ?_, fun found malformed => ?_⟩
  · rw [character, List.getElem?_eq_none_iff, String.length_toList]
    omega
  · rw [malformed] at fails
    obtain ⟨same, mantissa, point, tail, left⟩ := fails.exists_point
    refine ⟨same, taken, tail, ?_, mantissa, point, behind⟩
    rw [← within.skipBlanks.rest_eq, whole, left]

end Lexer
end ArithExpr
