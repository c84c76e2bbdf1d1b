import ArithExpr.Proofs.Token.Scanning
import ArithExpr.Proofs.Token.Words
import Mathlib.Logic.Function.Iterate

/-!
# How a text is laid out

A text is blanks and words in turn and ends with blanks or with what is no word. `Layout` says so
without a lexer: what words look like is `Cut.Spells`, and `Cut.Fails` lists the three ways in which
the characters behind blanks can be no word. Main statement: a text has exactly one layout, and it
is what the lexer lists (`Lexer.next_lists_layout`).
-/

namespace ArithExpr

namespace Decimal
open Cut (Ends Mantissa Exponent)
variable {head tail : List Char}

/-- Without a point there is no fraction. -/
lemma fraction_of_ends (ends : Ends (· = '.') tail) : fraction tail = ([], tail) := by
  unfold fraction
  split
  next => exact absurd rfl (ends _ rfl)
  next => rfl

/-- A run of digits has a value. -/
lemma exists_digits? {digits : List Char} (nonempty : digits ≠ [])
    (all : ∀ c ∈ digits, c.isDigit = true) : ∃ e, digits? digits = some e :=
  ⟨_, if_pos ⟨nonempty, List.all_eq_true.2 all⟩⟩

/-- What looks like an exponent has a value. -/
lemma exists_exponent? (exponent : Exponent tail) : ∃ e, exponent? tail = some e := by
  cases exponent with
  | @mk mark signs digits marks signed nonempty all =>
    obtain ⟨e, reads⟩ := exists_digits? nonempty all
    obtain ⟨c, digits, rfl⟩ := List.exists_cons_of_ne_nil nonempty
    have digit := all c List.mem_cons_self
    rw [exponent?, if_pos marks]
    obtain rfl | rfl | rfl := signed
    · refine ⟨e, ?_⟩
      rw [List.nil_append]
      unfold signedDigits?
      split
      next same => cases same; cases digit
      next same => cases same; cases digit
      next => exact reads
    · exact ⟨e, reads⟩
    · exact ⟨-e, congrArg (Option.map (- ·)) reads⟩

/-- A mantissa is read with whatever is read as an exponent behind it. -/
lemma exists_ofText? (mantissa : Mantissa head) {e} (reads : exponent? tail = some e)
    (ends : Ends (fun c => c.isDigit = true ∨ c = '.') tail) :
    ∃ d, ofText? (head ++ tail) = some d := by
  have noDigit : Ends (Char.isDigit · = true) tail := ends.mono fun _ => .inl
  cases mantissa with
  | whole nonempty all =>
    have noPoint : Ends (· = '.') tail := ends.mono fun _ => .inr
    rw [ofText?, Cut.takeWhile_append all noDigit, Cut.dropWhile_append all noDigit,
      fraction_of_ends noPoint, if_neg fun both => nonempty both.1, reads]
    exact ⟨_, rfl⟩
  | @point whole part nonempty all allPart =>
    have point : Ends (Char.isDigit · = true) ('.' :: (part ++ tail)) :=
      Cut.ends_cons.2 (by decide)
    rw [List.append_assoc, List.cons_append, ofText?, Cut.takeWhile_append all point,
      Cut.dropWhile_append all point, fraction, Cut.takeWhile_append allPart noDigit,
      Cut.dropWhile_append allPart noDigit, if_neg (by simpa [imp_iff_not_or] using nonempty),
      reads]
    exact ⟨_, rfl⟩

/-- Every numeral is read, with an exponent or without one. -/
lemma exists_ofText?_mantissa (mantissa : Mantissa head) : ∃ d, ofText? head = some d := by
  have reads : ∃ d, ofText? (head ++ []) = some d :=
    exists_ofText? mantissa rfl (Cut.ends_nil _)
  rwa [List.append_nil] at reads

/-- Every numeral with an exponent is read. -/
lemma exists_ofText?_exponent (mantissa : Mantissa head) (exponent : Exponent tail) :
    ∃ d, ofText? (head ++ tail) = some d := by
  obtain ⟨e, reads⟩ := exists_exponent? exponent
  refine exists_ofText? mantissa reads ?_
  cases exponent with
  | mk marks _ _ _ =>
    rw [Cut.ends_cons]
    obtain rfl | rfl := marks <;> decide

end Decimal

namespace Cut

/-- What is no word: a character that starts none, a second point behind a mantissa with one, or an
exponent without digits. The fault belongs behind the characters taken. -/
inductive Fails : List Char → List Char → LexFault → Prop where
  | unexpectedCharacter {c tail} :
    c.isDigit = false →
    Text.isAlphabetic c = false →
    Lexeme.ofSymbol? c = none →
    (c = '.' → Ends (Char.isDigit · = true) tail) →
    Fails [] (c :: tail) (.unexpectedCharacter c)
  | secondPoint {head tail} :
    Mantissa head →
    '.' ∈ head →
    Fails head ('.' :: tail) (.malformedNumber '.')
  | exponent {head mark signs rest} :
    Mantissa head →
    mark = 'e' ∨ mark = 'E' →
    signs = [] ∧ Ends (fun c => c = '+' ∨ c = '-') rest ∨ signs = ['+'] ∨ signs = ['-'] →
    Ends (Char.isDigit · = true) rest →
    Fails (head ++ mark :: signs) rest (.malformedExponent rest.head?)

variable {head taken rest : List Char}

/-- What is no word is not empty. -/
lemma Fails.ne_nil {reason} (fails : Fails taken rest reason) : taken ++ rest ≠ [] := by
  cases fails <;> simp

/-- A mantissa with a point goes on with digits only. -/
lemma Mantissa.mantissa_of_point (mantissa : Mantissa head) (point : '.' ∈ head)
    (ends : Ends (Char.isDigit · = true) rest) : Cut.mantissa (head ++ rest) = (head, rest) := by
  cases mantissa with
  | whole _ all => cases all _ point
  | @point whole part nonempty all allPart =>
    have noDigit : Ends (Char.isDigit · = true) ('.' :: (part ++ rest)) :=
      ends_cons.2 (by decide)
    rw [List.append_assoc, List.cons_append, Cut.mantissa, dropWhile_append all noDigit,
      takeWhile_append all noDigit]
    simp only [takeWhile_append allPart ends, dropWhile_append allPart ends]

/-- Only behind a mantissa with a point can there be a point. -/
lemma point_mem_mantissa {text tail : List Char} (behind : (mantissa text).2 = '.' :: tail) :
    '.' ∈ (mantissa text).1 := by
  unfold mantissa at behind ⊢
  split
  next => exact List.mem_append_right _ List.mem_cons_self
  next other =>
    split at behind
    next same => exact absurd same (other _)
    next => exact absurd behind (other _)

/-- A numeral that is read is a number. -/
lemma outcome_numberWord {d} (reads : Decimal.ofText? taken = some d) :
    (numberWord taken rest).outcome = .ok (.number d.toFloat) := by
  rw [numberWord_of_ofText? reads, word]

/-- In front of what is no sign there is none. -/
lemma sign_of_ends (ends : Ends (fun c => c = '+' ∨ c = '-') rest) : sign rest = ([], rest) := by
  unfold sign
  split
  next => exact absurd (.inl rfl) (ends_cons.1 ends)
  next => exact absurd (.inr rfl) (ends_cons.1 ends)
  next => rfl

/-- No numeral is cut off only where there is none, and the fault is behind what was taken. -/
lemma fails_of_numeral {text : List Char} {fault} (starts : startsNumeral text = true)
    (error : (numeral text).outcome = .error fault) :
    Fails (numeral text).taken (numeral text).rest fault.value ∧
      fault.position = (numeral text).taken.length := by
  obtain ⟨mantissa, noDigit⟩ := mantissa_of_startsNumeral starts
  have point := @point_mem_mantissa text
  unfold numeral at error ⊢
  generalize Cut.mantissa text = parts at mantissa noDigit point error ⊢
  obtain ⟨head, rest⟩ := parts
  obtain ⟨d, reads⟩ := Decimal.exists_ofText?_mantissa mantissa
  cases rest with
  | nil => cases (outcome_numberWord reads).symm.trans error
  | cons c tail =>
    simp only at error ⊢
    split at error
    next same =>
      cases error
      subst same
      exact ⟨.secondPoint mantissa (point rfl), rfl⟩
    next other =>
      rw [if_neg other]
      split at error
      next marks =>
        rw [if_pos marks]
        have signed := sign_ends tail
        generalize sign tail = parts at signed error ⊢
        obtain ⟨signs, behind⟩ := parts
        simp only at error ⊢
        split at error
        next none =>
          cases error
          refine ⟨.exponent mantissa marks signed ?_, rfl⟩
          rw [← List.takeWhile_append_dropWhile (p := Char.isDigit) (l := behind), none]
          exact ends_dropWhile _ _
        next digits nonempty =>
          -- with digits the exponent has a value, and then there is no fault
          have all : ∀ c ∈ behind.takeWhile Char.isDigit, c.isDigit = true :=
            fun _ => List.mem_takeWhile_imp
          have exponent := Exponent.mk marks (signed.imp_left And.left) nonempty all
          obtain ⟨d, reads⟩ := Decimal.exists_ofText?_exponent mantissa exponent
          rw [List.append_assoc, List.cons_append] at error
          cases (outcome_numberWord reads).symm.trans error
      next => cases (outcome_numberWord reads).symm.trans error

/-- No word is cut off only where there is none, and the fault is behind what was taken. -/
theorem fails_of_first {c : Char} {tail : List Char} {fault}
    (error : (first c tail).outcome = .error fault) :
    Fails (first c tail).taken (first c tail).rest fault.value ∧
      fault.position = (first c tail).taken.length := by
  unfold first at error ⊢
  split at error
  next starts =>
    rw [if_pos starts]
    exact fails_of_numeral starts error
  next starts =>
    rw [if_neg starts]
    split at error
    next => cases error
    next letter =>
      rw [if_neg letter]
      cases symbol : Lexeme.ofSymbol? c with
      | some lexeme => simp [symbol, word] at error
      | none =>
        simp only [symbol] at error ⊢
        cases error
        refine ⟨.unexpectedCharacter ?_ (Bool.eq_false_iff.2 letter) symbol ?_, rfl⟩
        · exact Bool.eq_false_iff.2 fun digit => starts (startsNumeral_of_isDigit digit tail)
        · rintro rfl d first digit
          obtain ⟨tail, rfl⟩ := List.head?_eq_some_iff.1 first
          exact starts digit

/-- Where there is no word a cut finds none. -/
theorem first_of_fails {c : Char} {tail : List Char} {reason} (fails : Fails taken rest reason)
    (whole : taken ++ rest = c :: tail) : first c tail = fault taken rest reason := by
  unfold first
  cases fails with
  | unexpectedCharacter digit letter symbol point =>
    cases whole
    have starts : startsNumeral (c :: tail) = false := by
      unfold startsNumeral
      split
      next d tail same =>
        cases same
        exact Bool.eq_false_iff.2 (ends_cons.1 (point rfl))
      next same => cases same; exact digit
      next => rfl
    rw [starts, letter, symbol]
    rfl
  | secondPoint mantissa point =>
    rw [← whole, if_pos (mantissa.startsNumeral _), numeral,
      mantissa.mantissa_of_point point (ends_cons.2 (by decide))]
    rfl
  | @exponent head mark signs rest mantissa marks signed ends =>
    have noPoint : Ends (fun c => c.isDigit = true ∨ c = '.') (mark :: (signs ++ rest)) := by
      rw [ends_cons]
      obtain rfl | rfl := marks <;> decide
    have signs_eq : sign (signs ++ rest) = (signs, rest) := by
      obtain ⟨rfl, unsigned⟩ | rfl | rfl := signed
      · exact sign_of_ends unsigned
      · rfl
      · rfl
    have none : ([] ++ rest).takeWhile Char.isDigit = [] :=
      takeWhile_append (List.forall_mem_nil _) ends
    rw [List.nil_append] at none
    rw [← whole, List.append_assoc, List.cons_append, if_pos (mantissa.startsNumeral _), numeral,
      mantissa.mantissa noPoint]
    simp only
    rw [if_neg (by obtain rfl | rfl := marks <;> decide), if_pos marks, signs_eq]
    simp only [none]

end Cut

/-- A text from an offset on, and its tokens: blanks and words in turn, up to the end of the text or
to what is no word. Every word is as long as it can be. -/
inductive Layout : Nat → List Char → Tokens → Prop where
  | finish {position gap} :
    (∀ c ∈ gap, Text.isBlank c = true) →
    Layout position gap ⟨[], .finish (position + gap.length)⟩
  | fault {position gap taken rest reason} :
    (∀ c ∈ gap, Text.isBlank c = true) →
    Cut.Ends (Text.isBlank · = true) (taken ++ rest) →
    Cut.Fails taken rest reason →
    Layout position (gap ++ (taken ++ rest))
      ⟨[], .fault ⟨reason, position + gap.length + taken.length⟩⟩
  | word {position gap text rest lexeme goesOn tokens} :
    (∀ c ∈ gap, Text.isBlank c = true) →
    Cut.Spells text lexeme goesOn →
    Cut.Ends goesOn rest →
    Layout (position + gap.length + text.length) rest tokens →
    Layout position (gap ++ (text ++ rest))
      ⟨⟨lexeme, position + gap.length⟩ :: tokens.list, tokens.ending⟩

namespace Cursor
variable {gap rest : List Char} {position : Nat}

/-- Blanks are skipped up to what is none. -/
lemma skipBlanks_gap (blank : ∀ c ∈ gap, Text.isBlank c = true)
    (ends : Cut.Ends (Text.isBlank · = true) rest) :
    skipBlanks ⟨gap ++ rest, position⟩ = ⟨rest, position + gap.length⟩ := by
  simp only [skipBlanks, Cut.takeWhile_append blank ends, Cut.dropWhile_append blank ends]

/-- What is skipped are blanks, and what is left does not start with one. -/
lemma exists_gap_of_skipBlanks {cursor : Cursor} (skipped : cursor.skipBlanks = ⟨rest, position⟩) :
    ∃ gap, (∀ c ∈ gap, Text.isBlank c = true) ∧ Cut.Ends (Text.isBlank · = true) rest ∧
      cursor.rest = gap ++ rest ∧ position = cursor.position + gap.length := by
  cases skipped
  exact ⟨_, fun _ => List.mem_takeWhile_imp, Cut.ends_dropWhile _ _,
    List.takeWhile_append_dropWhile.symm, rfl⟩

/-- The tokens that the lexer finds are those of a layout. -/
theorem layout_tokens (cursor : Cursor) : Layout cursor.position cursor.rest cursor.tokens := by
  induction cursor using tokens.induct with
  | case1 cursor error stop found =>
    obtain ⟨c, tail, start, ⟨reason, offset⟩, skipped, error, rfl⟩ := exists_fault_of_next found
    obtain ⟨gap, blank, ends, whole, rfl⟩ := exists_gap_of_skipBlanks skipped
    obtain ⟨fails, behind⟩ := Cut.fails_of_first error
    rw [← Cut.first_append c tail] at ends whole
    rw [tokens_of_error found, whole, Located.shift, behind, Nat.add_comm (List.length _)]
    exact .fault blank ends fails
  | case2 cursor position stop found =>
    obtain ⟨gap, blank, -, whole, rfl⟩ := exists_gap_of_skipBlanks (skipBlanks_of_end found)
    rw [tokens_of_end found, whole, List.append_nil]
    exact .finish blank
  | case3 cursor lexeme position stop found ih =>
    obtain ⟨text, goesOn, skipped, spells, ends, behind⟩ := exists_spells_of_next found
    obtain ⟨gap, blank, -, whole, rfl⟩ := exists_gap_of_skipBlanks skipped
    rw [behind] at ih
    rw [tokens_of_word found, whole]
    exact .word blank spells ends ih

end Cursor

/-- The places of the words, and the one behind them. -/
def Tokens.places (tokens : Tokens) : List Nat :=
  tokens.list.map Located.position ++ [tokens.ending.position]

namespace Layout

/-- A text without an error ends where its last character does. -/
lemma position_of_finish {position : Nat} {text : List Char} {tokens : Tokens} {stop}
    (layout : Layout position text tokens) (finish : tokens.ending = .finish stop) :
    stop = position + text.length := by
  induction layout with
  | finish _ =>
    cases finish
    rfl
  | fault _ _ _ => cases finish
  | word _ _ _ _ ih =>
    have behind := ih finish
    simp only [List.length_append]
    omega

/-- No place of a text is in front of its offset. -/
lemma le_places {position : Nat} {text : List Char} {tokens : Tokens}
    (layout : Layout position text tokens) : ∀ place ∈ tokens.places, position ≤ place := by
  induction layout with
  | finish _ => exact List.forall_mem_singleton.2 (Nat.le_add_right _ _)
  | fault _ _ _ =>
    exact List.forall_mem_singleton.2 (Nat.le_trans (Nat.le_add_right _ _) (Nat.le_add_right _ _))
  | word _ _ _ _ ih =>
    refine List.forall_mem_cons.2 ⟨Nat.le_add_right _ _, fun place mem => ?_⟩
    have := ih place mem
    omega

/-- No two places of a text are the same, and those of later words are larger. -/
lemma pairwise_places {position : Nat} {text : List Char} {tokens : Tokens}
    (layout : Layout position text tokens) : tokens.places.Pairwise (· < ·) := by
  induction layout with
  | finish _ => exact List.pairwise_singleton _ _
  | fault _ _ _ => exact List.pairwise_singleton _ _
  | word _ spells _ behind ih =>
    refine List.pairwise_cons.2 ⟨fun place mem => ?_, ih⟩
    have le := behind.le_places place mem
    have pos := List.length_pos_iff.2 spells.ne_nil
    simp only
    omega

/-- A token of a text is spelled there at its place. -/
lemma exists_spells_of_mem {position : Nat} {text : List Char} {tokens : Tokens}
    (layout : Layout position text tokens) {token} (mem : token ∈ tokens.list) :
    ∃ before word behind goesOn, text = before ++ (word ++ behind) ∧
      token.position = position + before.length ∧ Cut.Spells word token.value goesOn := by
  induction layout with
  | finish _ => cases mem
  | fault _ _ _ => cases mem
  | @word position gap text rest lexeme goesOn tokens _ spells _ _ ih =>
    obtain rfl | mem := List.mem_cons.1 mem
    · exact ⟨gap, text, rest, goesOn, rfl, rfl, spells⟩
    · obtain ⟨before, word, behind, goesOn, rfl, place, spells⟩ := ih mem
      refine ⟨gap ++ (text ++ before), word, behind, goesOn, by simp, ?_, spells⟩
      rw [place, List.length_append, List.length_append, Nat.add_assoc, Nat.add_assoc]

/-- The tokens of a layout are those that the lexer finds. -/
theorem tokens_eq {position : Nat} {text : List Char} {tokens : Tokens}
    (layout : Layout position text tokens) : Cursor.tokens ⟨text, position⟩ = tokens := by
  induction layout with
  | @finish position gap blank =>
    have skipped : Cursor.skipBlanks ⟨gap ++ [], position⟩ = _ :=
      Cursor.skipBlanks_gap blank (Cut.ends_nil _)
    rw [List.append_nil] at skipped
    exact Cursor.tokens_of_end (Cursor.next_of_end skipped)
  | @fault position gap taken rest reason blank ends fails =>
    have skipped : Cursor.skipBlanks ⟨gap ++ (taken ++ rest), position⟩ = _ :=
      Cursor.skipBlanks_gap blank ends
    obtain ⟨c, tail, whole⟩ := List.exists_cons_of_ne_nil fails.ne_nil
    -- where there is no word the lexer finds none, whatever stands behind
    have cut := Cut.first_of_fails fails whole
    rw [whole] at skipped ⊢
    obtain ⟨stop, found⟩ := Cursor.next_of_fault skipped (congrArg Cut.outcome cut)
    rw [Cursor.tokens_of_error found, Located.shift, Nat.add_comm]
  | @word position gap text rest lexeme goesOn tokens blank spells ends _ ih =>
    have skipped : Cursor.skipBlanks ⟨gap ++ (text ++ rest), position⟩ = _ :=
      (Cursor.skipBlanks_append blank _ _).trans (Cursor.skipBlanks_of_spells spells _ _)
    rw [Cursor.tokens_of_word (Cursor.next_of_spells skipped spells ends), ih]

end Layout

/-- The tokens of a text are laid out in it. -/
lemma Tokens.layout_ofText (text : String) : Layout 0 text.toList (ofText text) :=
  (Cursor.start text).layout_tokens

/-- The tokens of a text are those of its layout. -/
theorem Tokens.ofText_eq_iff {text : String} {tokens : Tokens} :
    ofText text = tokens ↔ Layout 0 text.toList tokens := by
  constructor
  · rintro rfl
    exact layout_ofText text
  · exact fun layout => layout.tokens_eq

/-- An operator stands in the text at the place of its token. -/
lemma Tokens.getElem?_of_operator {text : String} {op position}
    (mem : ⟨.operator op, position⟩ ∈ (ofText text).list) :
    text.toList[position]? = some op.symbol := by
  obtain ⟨before, word, behind, goesOn, whole, place, spells⟩ :=
    (layout_ofText text).exists_spells_of_mem mem
  obtain rfl : word = [op.symbol] := by
    cases spells with
    | symbol same =>
      unfold Lexeme.ofSymbol? at same
      split at same <;> cases same <;> rfl
  obtain rfl : position = before.length := place.trans (Nat.zero_add _)
  rw [whole, List.getElem?_append_right (Nat.le_refl _), Nat.sub_self]
  rfl

/-- A name stands in the text from the place of its token on. -/
lemma Tokens.prefix_of_name {text : String} {name position}
    (mem : ⟨.name name, position⟩ ∈ (ofText text).list) :
    name.toList <+: text.toList.drop position := by
  obtain ⟨before, word, behind, goesOn, whole, place, spells⟩ :=
    (layout_ofText text).exists_spells_of_mem mem
  obtain rfl : word = name.toList := by
    generalize same : Lexeme.name name = lexeme at spells
    cases spells with
    | symbol symbol =>
      subst same
      unfold Lexeme.ofSymbol? at symbol
      split at symbol <;> cases symbol
    | name _ _ =>
      cases same
      exact (String.toList_ofList).symm
    | decimal _ _ => cases same
    | scientific _ _ _ => cases same
  obtain rfl : position = before.length := place.trans (Nat.zero_add _)
  rw [whole, List.drop_left]
  exact List.prefix_append _ _

namespace Lexer

/-- The lexer after one more item of its list. -/
def step (lexer : Lexer) : Lexer :=
  lexer.next.2

/-- A list that is over stays over. -/
lemma next_iterate_finished (cursor : Cursor) (n : Nat) :
    (step^[n] ⟨cursor, true⟩).next.1 = none := by
  induction n with
  | zero => rfl
  | succ n ih => exact ih

/-- From a place on the lexer lists the tokens from there and what they end with. -/
lemma next_iterate (cursor : Cursor) (n : Nat) :
    (step^[n] ⟨cursor, false⟩).next.1 = cursor.tokens.answers[n]? := by
  induction cursor using Cursor.tokens.induct generalizing n with
  | case1 cursor error stop found =>
    have first : next ⟨cursor, false⟩ = (some (.error error), ⟨stop, true⟩) := by
      simp only [next, nextToken, found]
      rfl
    rw [Cursor.tokens_of_error found]
    cases n with
    | zero => rw [Function.iterate_zero_apply, first]; rfl
    | succ n =>
      rw [Function.iterate_succ_apply, step, first, next_iterate_finished]
      rfl
  | case2 cursor position stop found =>
    have first : next ⟨cursor, false⟩ = (some (.ok ⟨none, position⟩), ⟨stop, true⟩) := by
      simp only [next, nextToken, found]
      rfl
    rw [Cursor.tokens_of_end found]
    cases n with
    | zero => rw [Function.iterate_zero_apply, first]; rfl
    | succ n =>
      rw [Function.iterate_succ_apply, step, first, next_iterate_finished]
      rfl
  | case3 cursor lexeme position stop found ih =>
    have first : next ⟨cursor, false⟩ = (some (.ok ⟨some lexeme, position⟩), ⟨stop, false⟩) := by
      simp only [next, nextToken, found]
      rfl
    rw [Cursor.tokens_of_word found]
    cases n with
    | zero => rw [Function.iterate_zero_apply, first]; rfl
    | succ n =>
      rw [Function.iterate_succ_apply, step, first, ih]
      rfl

/-- Every text has exactly one layout. The lexer lists its words in order, then the end of the text,
which is at its length, or the error behind the words, and then nothing. -/
theorem next_lists_layout (text : String) :
    ∃ tokens : Tokens, (∀ tokens', Layout 0 text.toList tokens' ↔ tokens' = tokens) ∧
      (∀ stop, tokens.ending = .finish stop → stop = text.length) ∧
      ∀ n, (step^[n] (start text)).next.1 = tokens.answers[n]? := by
  refine ⟨Tokens.ofText text, fun tokens' => ?_, fun stop finish => ?_, next_iterate (.start text)⟩
  · rw [← Tokens.ofText_eq_iff, eq_comm]
  · have layout := Tokens.ofText_eq_iff.1 (Eq.refl (Tokens.ofText text))
    rw [layout.position_of_finish finish, Nat.zero_add, String.length_toList]

end Lexer
end ArithExpr
