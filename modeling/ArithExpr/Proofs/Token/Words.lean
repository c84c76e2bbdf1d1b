import ArithExpr.Proofs.Text.Classes
import ArithExpr.Token.Lexer
import Mathlib.Data.List.TakeWhile

/-!
# What a word looks like

A word is a symbol, a run of letters, or a numeral, and no character that would go on with it stands
behind it. `Cut.Spells` says so without looking at a text as a whole. Main statements: the lexer
finds such a word wherever it stands in front of a character that does not go on with it
(`Cut.first_of_spells`), and finds no others (`Cut.spells_of_first`). Behind blanks this is
`Cursor.next_of_spells` and `Cursor.exists_spells_of_next`.
-/

namespace ArithExpr
namespace Cut

/-- Nothing at the front of a text goes on with what stands before it. -/
def Ends (goesOn : Char → Prop) (text : List Char) : Prop :=
  ∀ c ∈ text.head?, ¬ goesOn c

/-- What ends a longer word ends one that fewer characters go on with. -/
lemma Ends.mono {goesOn goesOn' : Char → Prop} {text} (ends : Ends goesOn text)
    (weaker : ∀ c, goesOn' c → goesOn c) : Ends goesOn' text :=
  fun c first goes => ends c first (weaker c goes)

/-- The end of a text ends every word. -/
lemma ends_nil (goesOn : Char → Prop) : Ends goesOn [] :=
  nofun

/-- A character ends a word that it does not go on with. -/
lemma ends_cons {goesOn : Char → Prop} {c : Char} {tail} :
    Ends goesOn (c :: tail) ↔ ¬ goesOn c := by
  simp [Ends]

/-- A run of characters of a class is cut off in front of one that is not of the class. -/
lemma takeWhile_append {p : Char → Bool} {word rest : List Char} (all : ∀ c ∈ word, p c = true)
    (ends : Ends (p · = true) rest) : (word ++ rest).takeWhile p = word := by
  rw [List.takeWhile_append_of_pos all]
  cases rest with
  | nil => simp
  | cons c tail => rw [List.takeWhile_cons_of_neg (ends_cons.1 ends), List.append_nil]

/-- Behind a run of characters of a class comes what is not of the class. -/
lemma dropWhile_append {p : Char → Bool} {word rest : List Char} (all : ∀ c ∈ word, p c = true)
    (ends : Ends (p · = true) rest) : (word ++ rest).dropWhile p = rest := by
  rw [List.dropWhile_append_of_pos all]
  cases rest with
  | nil => rfl
  | cons c tail => exact List.dropWhile_cons_of_neg (ends_cons.1 ends)

/-- What is left behind a run of characters of a class is not of the class. -/
lemma ends_dropWhile (p : Char → Bool) (text : List Char) :
    Ends (p · = true) (text.dropWhile p) := by
  induction text with
  | nil => exact ends_nil _
  | cons c tail ih =>
    by_cases goes : p c = true
    · rwa [List.dropWhile_cons_of_pos goes]
    · rw [List.dropWhile_cons_of_neg goes]
      exact ends_cons.2 goes

/-- Digits with at most one point among them, and a digit on one side of the point. -/
inductive Mantissa : List Char → Prop where
  | whole {digits} :
    digits ≠ [] →
    (∀ c ∈ digits, c.isDigit = true) →
    Mantissa digits
  | point {whole part} :
    whole ≠ [] ∨ part ≠ [] →
    (∀ c ∈ whole, c.isDigit = true) →
    (∀ c ∈ part, c.isDigit = true) →
    Mantissa (whole ++ '.' :: part)

/-- The mark of an exponent, a sign or none, and digits. -/
inductive Exponent : List Char → Prop where
  | mk {mark signs digits} :
    mark = 'e' ∨ mark = 'E' →
    signs = [] ∨ signs = ['+'] ∨ signs = ['-'] →
    digits ≠ [] →
    (∀ c ∈ digits, c.isDigit = true) →
    Exponent (mark :: (signs ++ digits))

/-- What would go on with a numeral without an exponent. -/
def GoesOnNumeral (c : Char) : Prop :=
  c.isDigit = true ∨ c = '.' ∨ c = 'e' ∨ c = 'E'

/-- Whether a character goes on with a numeral can be decided. -/
instance : DecidablePred GoesOnNumeral :=
  fun c => inferInstanceAs (Decidable (c.isDigit = true ∨ c = '.' ∨ c = 'e' ∨ c = 'E'))

/-- The characters of a word, the word, and the characters that would go on with it. -/
inductive Spells : List Char → Lexeme → (Char → Prop) → Prop where
  | symbol {c lexeme} :
    Lexeme.ofSymbol? c = some lexeme →
    Spells [c] lexeme fun _ => False
  | name {letters} :
    letters ≠ [] →
    (∀ c ∈ letters, Text.isAlphabetic c = true) →
    Spells letters (.name (String.ofList letters)) fun c => Text.isAlphabetic c = true
  | decimal {head d} :
    Mantissa head →
    Decimal.ofText? head = some d →
    Spells head (.number d.toFloat) GoesOnNumeral
  | scientific {head tail d} :
    Mantissa head →
    Exponent tail →
    Decimal.ofText? (head ++ tail) = some d →
    Spells (head ++ tail) (.number d.toFloat) fun c => c.isDigit = true

/-- No word is empty. -/
lemma Spells.ne_nil {text lexeme goesOn} (spells : Spells text lexeme goesOn) : text ≠ [] := by
  cases spells with
  | symbol => exact List.cons_ne_nil _ _
  | name nonempty _ => exact nonempty
  | decimal head _ => cases head <;> simp [*]
  | scientific _ tail _ => cases tail; simp

/-- A blank goes on with no word. -/
lemma Spells.not_goesOn_of_isBlank {text lexeme goesOn} (spells : Spells text lexeme goesOn)
    {c : Char} (blank : Text.isBlank c = true) : ¬ goesOn c := by
  have digit := Text.isDigit_of_isBlank blank
  have letter := Text.isAlphabetic_of_isBlank blank
  cases spells with
  | symbol => exact id
  | name => simp [letter]
  | decimal =>
    rintro (goes | rfl | rfl | rfl)
    · simp [digit] at goes
    all_goals revert blank; decide
  | scientific => simp [digit]

/-- A symbol goes on with no word. -/
lemma Spells.not_goesOn_of_symbol {text lexeme goesOn} (spells : Spells text lexeme goesOn)
    {c : Char} {symbol} (found : Lexeme.ofSymbol? c = some symbol) : ¬ goesOn c := by
  obtain ⟨-, letter, digit, point⟩ := Lexeme.class_of_ofSymbol? found
  cases spells with
  | symbol => exact id
  | name => simp [letter]
  | decimal =>
    rintro (goes | goes | rfl | rfl)
    · simp [digit] at goes
    · exact point goes
    all_goals revert letter; decide
  | scientific => simp [digit]

section Numerals
variable {head tail rest : List Char}

/-- A text starts like a numeral if it starts with a digit. -/
lemma startsNumeral_of_isDigit {c : Char} (digit : c.isDigit = true) (tail : List Char) :
    startsNumeral (c :: tail) = true := by
  unfold startsNumeral
  split
  next same =>
    cases same
    cases digit
  next same => cases same; exact digit
  next same => cases same

/-- A text that does not start with a point starts like a numeral only with a digit. -/
lemma startsNumeral_cons {c : Char} (point : c ≠ '.') (tail : List Char) :
    startsNumeral (c :: tail) = c.isDigit := by
  unfold startsNumeral
  split
  next same => cases same; exact absurd rfl point
  next same => cases same; rfl
  next same => cases same

/-- A text that starts with a mantissa starts like a numeral. -/
lemma Mantissa.startsNumeral (mantissa : Mantissa head) (rest : List Char) :
    startsNumeral (head ++ rest) = true := by
  cases mantissa with
  | @whole digits nonempty all =>
    obtain ⟨c, digits, rfl⟩ := List.exists_cons_of_ne_nil nonempty
    exact startsNumeral_of_isDigit (all c List.mem_cons_self) _
  | @point whole part nonempty all allPart =>
    cases whole with
    | cons c whole => exact startsNumeral_of_isDigit (all c List.mem_cons_self) _
    | nil =>
      obtain ⟨c, part, rfl⟩ := List.exists_cons_of_ne_nil (nonempty.resolve_left (· rfl))
      exact allPart c List.mem_cons_self

/-- A mantissa is cut off in front of what goes on with none. -/
lemma Mantissa.mantissa (mantissa : Mantissa head)
    (ends : Ends (fun c => c.isDigit = true ∨ c = '.') rest) :
    Cut.mantissa (head ++ rest) = (head, rest) := by
  have noDigit : Ends (Char.isDigit · = true) rest := ends.mono fun _ => .inl
  cases mantissa with
  | whole nonempty all =>
    rw [Cut.mantissa, takeWhile_append all noDigit, dropWhile_append all noDigit]
    split
    next => exact absurd (.inr rfl) (ends_cons.1 ends)
    next => rfl
  | @point whole part nonempty all allPart =>
    have noPoint : Ends (Char.isDigit · = true) ('.' :: (part ++ rest)) :=
      ends_cons.2 (by decide)
    rw [List.append_assoc, List.cons_append, Cut.mantissa, dropWhile_append all noPoint,
      takeWhile_append all noPoint]
    simp only [takeWhile_append allPart noDigit, dropWhile_append allPart noDigit]

/-- A text that starts like a numeral starts with a mantissa, behind which there is no digit. -/
lemma mantissa_of_startsNumeral {text : List Char} (starts : Cut.startsNumeral text = true) :
    Mantissa (Cut.mantissa text).1 ∧ Ends (Char.isDigit · = true) (Cut.mantissa text).2 := by
  have nonempty := mantissa_ne_nil starts
  have all : ∀ text : List Char, ∀ c ∈ text.takeWhile Char.isDigit, c.isDigit = true :=
    fun _ _ => List.mem_takeWhile_imp
  unfold Cut.mantissa at nonempty ⊢
  split
  next tail behind =>
    refine ⟨.point ?_ (all _) (all _), ends_dropWhile _ _⟩
    unfold Cut.startsNumeral at starts
    split at starts
    next c part =>
      rw [List.dropWhile_cons_of_neg (by decide)] at behind
      cases behind
      exact .inr (by simp [starts])
    next c part _ => exact .inl (by simp [starts])
    next => cases starts
  next tail whole =>
    split at nonempty
    next same => exact absurd same (whole _)
    next => exact ⟨.whole nonempty (all _), ends_dropWhile _ _⟩

/-- A sign is cut off in front of the digits behind it. -/
lemma sign_append_digits {signs digits : List Char}
    (signed : signs = [] ∨ signs = ['+'] ∨ signs = ['-']) (nonempty : digits ≠ [])
    (all : ∀ c ∈ digits, c.isDigit = true) (rest : List Char) :
    sign (signs ++ (digits ++ rest)) = (signs, digits ++ rest) := by
  obtain ⟨c, digits, rfl⟩ := List.exists_cons_of_ne_nil nonempty
  have digit := all c List.mem_cons_self
  obtain rfl | rfl | rfl := signed
  · unfold sign
    split
    next same => cases same; cases digit
    next same => cases same; cases digit
    next => rfl
  · rfl
  · rfl

/-- A mantissa alone is a numeral in front of what goes on with none. -/
lemma numeral_of_mantissa (mantissa : Mantissa head)
    (ends : Ends GoesOnNumeral rest) :
    numeral (head ++ rest) = numberWord head rest := by
  have noPoint : Ends (fun c => c.isDigit = true ∨ c = '.') rest :=
    ends.mono fun _ goes => goes.imp_right .inl
  rw [numeral, mantissa.mantissa noPoint]
  cases rest with
  | nil => rfl
  | cons c rest =>
    have others := ends_cons.1 ends
    simp only
    rw [if_neg fun same => others (.inr (.inl same)), if_neg fun same => others (.inr (.inr same))]

/-- A mantissa and an exponent are a numeral in front of what is no digit. -/
lemma numeral_of_exponent (mantissa : Mantissa head) (exponent : Exponent tail)
    (ends : Ends (Char.isDigit · = true) rest) :
    numeral (head ++ tail ++ rest) = numberWord (head ++ tail) rest := by
  cases exponent with
  | @mk mark signs digits marks signed nonempty all =>
    have noPoint : Ends (fun c => c.isDigit = true ∨ c = '.')
        (mark :: (signs ++ (digits ++ rest))) := by
      rw [ends_cons]
      obtain rfl | rfl := marks <;> decide
    rw [List.append_assoc, List.cons_append, List.append_assoc, numeral, mantissa.mantissa noPoint]
    simp only
    rw [if_neg (by obtain rfl | rfl := marks <;> decide), if_pos marks,
      sign_append_digits signed nonempty all]
    simp only [takeWhile_append all ends, dropWhile_append all ends]
    rw [List.append_assoc, List.cons_append]

/-- A numeral that has a value is a number. -/
lemma numberWord_of_ofText? {taken : List Char} {d} (reads : Decimal.ofText? taken = some d)
    (rest : List Char) : numberWord taken rest = word taken rest (.number d.toFloat) := by
  rw [numberWord, reads]

/-- A numeral that is a number has a value. -/
lemma ofText?_of_numberWord {taken rest : List Char} {lexeme}
    (ok : (numberWord taken rest).outcome = .ok lexeme) :
    ∃ d, Decimal.ofText? taken = some d ∧
      numberWord taken rest = word taken rest (.number d.toFloat) ∧ lexeme = .number d.toFloat := by
  cases reads : Decimal.ofText? taken with
  | none => simp [numberWord, reads] at ok
  | some d =>
    have found := numberWord_of_ofText? reads rest
    rw [found] at ok
    cases ok
    exact ⟨d, rfl, found, rfl⟩

/-- What is cut off as a mantissa alone looks like a numeral. -/
lemma spells_of_mantissa {lexeme} (mantissa : Mantissa head)
    (ends : Ends GoesOnNumeral rest)
    (ok : (numberWord head rest).outcome = .ok lexeme) :
    ∃ goesOn, Spells (numberWord head rest).taken lexeme goesOn ∧
      Ends goesOn (numberWord head rest).rest := by
  obtain ⟨d, reads, found, rfl⟩ := ofText?_of_numberWord ok
  rw [found]
  exact ⟨_, .decimal mantissa reads, ends⟩

/-- What is cut off as a mantissa and an exponent looks like a numeral. -/
lemma spells_of_exponent {lexeme} (mantissa : Mantissa head) (exponent : Exponent tail)
    (ends : Ends (Char.isDigit · = true) rest)
    (ok : (numberWord (head ++ tail) rest).outcome = .ok lexeme) :
    ∃ goesOn, Spells (numberWord (head ++ tail) rest).taken lexeme goesOn ∧
      Ends goesOn (numberWord (head ++ tail) rest).rest := by
  obtain ⟨d, reads, found, rfl⟩ := ofText?_of_numberWord ok
  rw [found]
  exact ⟨_, .scientific mantissa exponent reads, ends⟩

/-- A sign is taken if there is one. -/
lemma sign_ends (text : List Char) :
    (sign text).1 = [] ∧ Ends (fun c => c = '+' ∨ c = '-') (sign text).2 ∨
      (sign text).1 = ['+'] ∨ (sign text).1 = ['-'] := by
  unfold sign
  split
  next => exact .inr (.inl rfl)
  next => exact .inr (.inr rfl)
  next plus minus =>
    refine .inl ⟨rfl, ?_⟩
    rintro c first (rfl | rfl)
    · obtain ⟨tail, rfl⟩ := List.head?_eq_some_iff.1 first
      exact plus tail rfl
    · obtain ⟨tail, rfl⟩ := List.head?_eq_some_iff.1 first
      exact minus tail rfl

end Numerals

/-- No word starts with a blank. -/
lemma Spells.isBlank_head {c : Char} {text lexeme goesOn}
    (spells : Spells (c :: text) lexeme goesOn) : Text.isBlank c = false := by
  refine Bool.eq_false_iff.2 fun blank => ?_
  have digit := Text.isDigit_of_isBlank blank
  have point : c ≠ '.' := by
    rintro rfl
    revert blank
    decide
  generalize whole : c :: text = characters at spells
  cases spells with
  | symbol symbol =>
    cases whole
    simp [(Lexeme.class_of_ofSymbol? symbol).1] at blank
  | name _ all =>
    have letter := all c (whole ▸ List.mem_cons_self)
    simp [Text.isAlphabetic_of_isBlank blank] at letter
  | decimal mantissa _ =>
    have starts := mantissa.startsNumeral []
    rw [List.append_nil, ← whole, startsNumeral_cons point, digit] at starts
    cases starts
  | @scientific _ tail _ mantissa _ _ =>
    have starts := mantissa.startsNumeral tail
    rw [← whole, startsNumeral_cons point, digit] at starts
    cases starts

/-- The lexer finds a word wherever no character behind it goes on with it. -/
theorem first_of_spells {c : Char} {text rest : List Char} {lexeme goesOn}
    (spells : Spells (c :: text) lexeme goesOn) (ends : Ends goesOn rest) :
    first c (text ++ rest) = word (c :: text) rest lexeme := by
  unfold first
  generalize whole : c :: text = characters at spells
  cases spells with
  | symbol symbol =>
    cases whole
    obtain ⟨-, letter, digit, point⟩ := Lexeme.class_of_ofSymbol? symbol
    rw [startsNumeral_cons point, digit, letter, symbol]
    rfl
  | name nonempty all =>
    -- what starts with a letter starts no numeral, so it is cut off as a name
    cases whole
    have letter := all c List.mem_cons_self
    have point : c ≠ '.' := by
      rintro rfl
      revert letter
      decide
    have digit : c.isDigit = false := by
      refine Bool.eq_false_iff.2 fun digit => ?_
      simp [Text.isAlphabetic_of_isDigit digit] at letter
    rw [startsNumeral_cons point, digit, letter]
    simp only [Bool.false_eq_true, if_false, if_true]
    rw [name, ← List.cons_append, takeWhile_append all ends, dropWhile_append all ends]
  | decimal mantissa reads =>
    rw [← List.cons_append, whole, if_pos (mantissa.startsNumeral _),
      numeral_of_mantissa mantissa ends, numberWord_of_ofText? reads]
  | scientific mantissa exponent reads =>
    rw [← List.cons_append, whole,
      if_pos (by rw [List.append_assoc]; exact mantissa.startsNumeral _),
      numeral_of_exponent mantissa exponent ends, numberWord_of_ofText? reads]

/-- A numeral that the lexer finds is a mantissa, alone or in front of an exponent. -/
lemma spells_of_numeral {text : List Char} {lexeme} (starts : startsNumeral text = true)
    (ok : (numeral text).outcome = .ok lexeme) :
    ∃ goesOn, Spells (numeral text).taken lexeme goesOn ∧ Ends goesOn (numeral text).rest := by
  obtain ⟨mantissa, noDigit⟩ := mantissa_of_startsNumeral starts
  unfold numeral at ok ⊢
  generalize Cut.mantissa text = parts at mantissa noDigit ok ⊢
  obtain ⟨head, rest⟩ := parts
  cases rest with
  | nil => exact spells_of_mantissa mantissa (ends_nil _) ok
  | cons c tail =>
    simp only at ok ⊢
    split at ok
    next => cases ok
    next point =>
      rw [if_neg point]
      split at ok
      next marks =>
        rw [if_pos marks]
        have signed := (sign_ends tail).imp_left And.left
        generalize sign tail = parts at signed ok ⊢
        obtain ⟨signs, behind⟩ := parts
        simp only at ok ⊢
        split at ok
        next => cases ok
        next digits nonempty =>
          have all : ∀ c ∈ behind.takeWhile Char.isDigit, c.isDigit = true :=
            fun _ => List.mem_takeWhile_imp
          rw [List.append_assoc, List.cons_append] at ok ⊢
          exact spells_of_exponent mantissa (.mk marks signed nonempty all) (ends_dropWhile _ _) ok
      next marks =>
        rw [if_neg marks]
        refine spells_of_mantissa mantissa (ends_cons.2 ?_) ok
        -- the character behind is no digit, no point and no mark of an exponent
        rintro (goes | goes | goes)
        · exact ends_cons.1 noDigit goes
        · exact point goes
        · exact marks goes

/-- Every word that the lexer finds looks like one, and no character behind it goes on with it. -/
theorem spells_of_first {c : Char} {tail : List Char} {lexeme}
    (ok : (first c tail).outcome = .ok lexeme) :
    ∃ goesOn, Spells (first c tail).taken lexeme goesOn ∧ Ends goesOn (first c tail).rest := by
  unfold first at ok ⊢
  split at ok
  next starts =>
    rw [if_pos starts]
    exact spells_of_numeral starts ok
  next starts =>
    rw [if_neg starts]
    split at ok
    next letter =>
      rw [if_pos letter]
      cases ok
      refine ⟨_, .name ?_ fun _ => List.mem_takeWhile_imp, ends_dropWhile _ _⟩
      simp [name, word, letter]
    next letter =>
      rw [if_neg letter]
      cases symbol : Lexeme.ofSymbol? c with
      | none => simp [symbol, fault] at ok
      | some found =>
        simp only [symbol] at ok ⊢
        cases ok
        exact ⟨_, .symbol symbol, fun _ _ => id⟩

end Cut

namespace Cursor

/-- Blanks in front of a text are skipped one by one. -/
lemma skipBlanks_append {blanks : List Char} (all : ∀ c ∈ blanks, Text.isBlank c = true)
    (rest : List Char) (position : Nat) :
    skipBlanks ⟨blanks ++ rest, position⟩ = skipBlanks ⟨rest, position + blanks.length⟩ := by
  simp only [skipBlanks, List.dropWhile_append_of_pos all, List.takeWhile_append_of_pos all,
    List.length_append, Nat.add_assoc]

/-- The lexer finds a word behind blanks if no character behind it goes on with it. -/
lemma next_of_spells {cursor : Cursor} {text rest position lexeme goesOn}
    (skipped : cursor.skipBlanks = ⟨text ++ rest, position⟩)
    (spells : Cut.Spells text lexeme goesOn) (ends : Cut.Ends goesOn rest) :
    cursor.next = (.ok ⟨some lexeme, position⟩, ⟨rest, position + text.length⟩) := by
  obtain ⟨c, tail, rfl⟩ := List.exists_cons_of_ne_nil spells.ne_nil
  rw [next, skipped]
  show ofCut position (Cut.first c (tail ++ rest)) = _
  rw [Cut.first_of_spells spells ends]
  rfl

/-- There is no blank to be skipped in front of a word. -/
lemma skipBlanks_of_spells {text lexeme goesOn} (spells : Cut.Spells text lexeme goesOn)
    (rest : List Char) (position : Nat) :
    skipBlanks ⟨text ++ rest, position⟩ = ⟨text ++ rest, position⟩ := by
  obtain ⟨c, tail, rfl⟩ := List.exists_cons_of_ne_nil spells.ne_nil
  have visible := Bool.eq_false_iff.1 spells.isBlank_head
  rw [List.cons_append, skipBlanks, List.dropWhile_cons_of_neg visible,
    List.takeWhile_cons_of_neg visible]
  rfl

/-- What the lexer finds behind blanks looks like a word, and it goes on behind that word. -/
lemma exists_spells_of_next {cursor stop : Cursor} {lexeme position}
    (found : cursor.next = (.ok ⟨some lexeme, position⟩, stop)) :
    ∃ text goesOn, cursor.skipBlanks = ⟨text ++ stop.rest, position⟩ ∧
      Cut.Spells text lexeme goesOn ∧ Cut.Ends goesOn stop.rest ∧
      stop.position = position + text.length := by
  rw [next] at found
  generalize cursor.skipBlanks = here at found ⊢
  obtain ⟨characters, place⟩ := here
  cases characters with
  | nil => cases found
  | cons c tail =>
    have whole := Cut.first_append c tail
    replace found : ofCut place (Cut.first c tail) = _ := found
    unfold ofCut at found
    split at found
    next word ok =>
      cases found
      obtain ⟨goesOn, spells, ends⟩ := Cut.spells_of_first ok
      exact ⟨_, goesOn, by rw [whole], spells, ends, rfl⟩
    next => cases found

/-- The lexer finds an error behind blanks where no word can be cut off. -/
lemma next_of_fault {cursor : Cursor} {c tail position error}
    (skipped : cursor.skipBlanks = ⟨c :: tail, position⟩)
    (fails : (Cut.first c tail).outcome = .error error) :
    ∃ stop, cursor.next = (.error (error.shift position), stop) := by
  refine ⟨⟨(Cut.first c tail).rest, position + (Cut.first c tail).taken.length⟩, ?_⟩
  rw [next, skipped]
  show ofCut position (Cut.first c tail) = _
  rw [ofCut, fails]

/-- Where the lexer finds an error behind blanks no word can be cut off. -/
lemma exists_fault_of_next {cursor stop : Cursor} {error}
    (found : cursor.next = (.error error, stop)) :
    ∃ c tail position fault, cursor.skipBlanks = ⟨c :: tail, position⟩ ∧
      (Cut.first c tail).outcome = .error fault ∧ error = fault.shift position := by
  rw [next] at found
  generalize cursor.skipBlanks = here at found ⊢
  obtain ⟨characters, position⟩ := here
  cases characters with
  | nil => cases found
  | cons c tail =>
    replace found : ofCut position (Cut.first c tail) = _ := found
    unfold ofCut at found
    split at found
    next => cases found
    next fails =>
      cases found
      exact ⟨c, tail, position, _, rfl, fails, rfl⟩

/-- The lexer finds the end of the input where there are only blanks up to it. -/
lemma next_of_end {cursor : Cursor} {position} (skipped : cursor.skipBlanks = ⟨[], position⟩) :
    cursor.next = (.ok ⟨none, position⟩, ⟨[], position⟩) := by
  rw [next, skipped]
  rfl

/-- Where the lexer finds the end of the input there are only blanks up to it. -/
lemma skipBlanks_of_end {cursor stop : Cursor} {position}
    (found : cursor.next = (.ok ⟨none, position⟩, stop)) :
    cursor.skipBlanks = ⟨[], position⟩ := by
  rw [next] at found
  generalize cursor.skipBlanks = here at found ⊢
  obtain ⟨characters, place⟩ := here
  cases characters with
  | nil =>
    cases found
    rfl
  | cons c tail =>
    replace found : ofCut place (Cut.first c tail) = _ := found
    unfold ofCut at found
    split at found <;> cases found

end Cursor
end ArithExpr
