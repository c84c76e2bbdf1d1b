import ArithExpr.Proofs.Grammar.Places
import ArithExpr.Proofs.Token.Words

/-!
# Blanks between words

Blanks put between the words of a text, in front of them or behind them move the words apart and
change none. Nothing is put behind the start of what the lexer takes for no word. Main statement:
the tokens of the widened text are those of the text, each where its first character was moved
(`Spacing.ofText_widened`).
-/

namespace ArithExpr
namespace Cursor

/-- The offsets from a place on at which no word is torn: the blanks up to the next word, its start,
and what follows it in the same way. Behind the start of what is no word there are none. -/
inductive Boundary : Cursor → Nat → Prop where
  | gap {cursor : Cursor} {i} :
    cursor.position ≤ i →
    i ≤ cursor.skipBlanks.position →
    Boundary cursor i
  | later {cursor stop : Cursor} {lexeme position i} :
    cursor.next = (.ok ⟨some lexeme, position⟩, stop) →
    Boundary stop i →
    Boundary cursor i

/-- The characters from an offset on, with what is inserted behind each of them. -/
def fill (gaps : Nat → List Char) : Nat → List Char → List Char
  | _, [] => []
  | i, c :: rest => c :: (gaps (i + 1) ++ fill gaps (i + 1) rest)

/-- The offset that a character has when something is inserted in front of it and of those before
it. -/
def place (gaps : Nat → List Char) : Nat → Nat
  | 0 => (gaps 0).length
  | i + 1 => place gaps i + 1 + (gaps (i + 1)).length

/-- What is inserted in front of the characters from a place on, and behind the last one, is blanks,
and tears no word. -/
structure Spaced (cursor : Cursor) (gaps : Nat → List Char) : Prop where
  blank : ∀ i, ∀ c ∈ gaps i, Text.isBlank c = true
  boundary : ∀ i, cursor.position ≤ i → gaps i ≠ [] → cursor.Boundary i

variable {gaps : Nat → List Char} {cursor stop : Cursor} {lexeme : Lexeme} {position i : Nat}

/-- A text is kept where nothing is inserted. -/
lemma fill_append {text : List Char} (nonempty : text ≠ [])
    (closed : ∀ j, i < j → j < i + text.length → gaps j = []) (rest : List Char) :
    fill gaps i (text ++ rest) =
      text ++ (gaps (i + text.length) ++ fill gaps (i + text.length) rest) := by
  induction text generalizing i with
  | nil => exact absurd rfl nonempty
  | cons c text ih =>
    rw [List.cons_append, fill]
    cases text with
    | nil => rfl
    | cons d text =>
      rw [List.length_cons] at closed ⊢
      rw [closed (i + 1) (by omega) (by simp), ih (List.cons_ne_nil d text) fun j gt lt =>
        closed j (by omega) (by omega)]
      simp only [List.nil_append, List.cons_append, Nat.add_assoc, Nat.add_comm 1]

/-- Where nothing is inserted offsets move alike. -/
lemma place_add {n : Nat} (closed : ∀ j, i < j → j ≤ i + n → gaps j = []) :
    place gaps (i + n) = place gaps i + n := by
  induction n with
  | zero => rfl
  | succ n ih =>
    rw [← Nat.add_assoc, place, closed (i + n + 1) (by omega) (by omega),
      ih fun j gt le => closed j gt (by omega)]
    rfl

/-- What is inserted behind a word moves the characters there. -/
lemma place_behind {n : Nat} (pos : 0 < n) (closed : ∀ j, i < j → j < i + n → gaps j = []) :
    place gaps i + n + (gaps (i + n)).length = place gaps (i + n) := by
  obtain ⟨n, rfl⟩ := Nat.exists_eq_add_one_of_ne_zero pos.ne'
  rw [← Nat.add_assoc i, place, place_add fun j gt le => closed j gt (by omega)]
  rfl

/-- In front of the next word there are only more blanks. -/
lemma skipBlanks_fill (blank : ∀ i, ∀ c ∈ gaps i, Text.isBlank c = true) (rest : List Char)
    (at_ : position + (gaps i).length = place gaps i) :
    skipBlanks ⟨gaps i ++ fill gaps i rest, position⟩ =
      ⟨fill gaps (skipBlanks ⟨rest, i⟩).position (skipBlanks ⟨rest, i⟩).rest,
        place gaps (skipBlanks ⟨rest, i⟩).position⟩ := by
  induction rest generalizing i position with
  | nil =>
    rw [skipBlanks_append (blank i), at_]
    rfl
  | cons c rest ih =>
    rw [skipBlanks_append (blank i), at_, fill]
    by_cases skipped : Text.isBlank c = true
    · have behind : skipBlanks ⟨gaps (i + 1) ++ fill gaps (i + 1) rest, place gaps i + 1⟩ = _ :=
        ih rfl
      have step (tail : List Char) (offset : Nat) :
          skipBlanks ⟨c :: tail, offset⟩ = skipBlanks ⟨tail, offset + 1⟩ :=
        skipBlanks_append (List.forall_mem_singleton.2 skipped) tail offset
      rw [step, behind, step]
    · simp only [skipBlanks, List.dropWhile_cons_of_neg skipped,
        List.takeWhile_cons_of_neg skipped]
      rw [fill]
      rfl

/-- Skipping blanks does not go back. -/
lemma position_le_skipBlanks (cursor : Cursor) : cursor.position ≤ cursor.skipBlanks.position :=
  Nat.le_add_right _ _

namespace Boundary

/-- No boundary is in front of the place that it is found from. -/
lemma le (boundary : cursor.Boundary i) : cursor.position ≤ i := by
  induction boundary with
  | gap le => exact le
  | @later cursor stop lexeme position i found _ ih =>
    obtain ⟨text, _, skipped, -, -, behind⟩ := exists_spells_of_next found
    have before := cursor.position_le_skipBlanks
    rw [skipped] at before
    simp only at before
    omega

/-- An offset that tears no word stands in front of the next one or goes on behind it. -/
lemma of_next (boundary : cursor.Boundary i)
    (found : cursor.next = (.ok ⟨some lexeme, position⟩, stop)) :
    i ≤ position ∨ stop.Boundary i := by
  cases boundary with
  | gap _ le =>
    obtain ⟨_, _, skipped, -⟩ := exists_spells_of_next found
    rw [skipped] at le
    exact .inl le
  | later found' boundary =>
    cases found.symm.trans found'
    exact .inr boundary

/-- Where the text ends or has an error no word is left in front of an offset. -/
lemma le_of_next (boundary : cursor.Boundary i)
    (none : ∀ lexeme position stop, cursor.next ≠ (.ok ⟨some lexeme, position⟩, stop)) :
    i ≤ cursor.skipBlanks.position := by
  cases boundary with
  | gap _ le => exact le
  | later found _ => exact absurd found (none _ _ _)

end Boundary

namespace Spaced

/-- Nothing is inserted into the next word. -/
lemma closed (spaced : cursor.Spaced gaps)
    (found : cursor.next = (.ok ⟨some lexeme, position⟩, stop)) (gt : position < i)
    (lt : i < stop.position) : gaps i = [] := by
  obtain ⟨_, _, skipped, -⟩ := exists_spells_of_next found
  have before := cursor.position_le_skipBlanks
  rw [skipped] at before
  by_contra nonempty
  obtain le | boundary := (spaced.boundary i (Nat.le_of_lt (Nat.lt_of_le_of_lt before gt))
    nonempty).of_next found
  · omega
  · have := boundary.le
    omega

/-- What is inserted behind the next word tears none of those behind it. -/
lemma behind (spaced : cursor.Spaced gaps)
    (found : cursor.next = (.ok ⟨some lexeme, position⟩, stop)) : stop.Spaced gaps := by
  obtain ⟨text, _, skipped, spells, -, behind⟩ := exists_spells_of_next found
  have before := cursor.position_le_skipBlanks
  have pos := List.length_pos_iff.2 spells.ne_nil
  rw [skipped] at before
  simp only at before
  refine ⟨spaced.blank, fun i ge nonempty => ?_⟩
  obtain le | boundary := (spaced.boundary i (by omega) nonempty).of_next found
  · omega
  · exact boundary

/-- Nothing is inserted behind the start of what is no word. -/
lemma closed_of_fault (spaced : cursor.Spaced gaps)
    (none : ∀ lexeme position stop, cursor.next ≠ (.ok ⟨some lexeme, position⟩, stop))
    (gt : cursor.skipBlanks.position < i) : gaps i = [] := by
  by_contra nonempty
  have le := (spaced.boundary i (Nat.le_of_lt (Nat.lt_of_le_of_lt cursor.position_le_skipBlanks gt))
    nonempty).le_of_next none
  omega

end Spaced

/-- Behind a word there is a blank or what was there before. -/
lemma ends_fill {text rest : List Char} {goesOn}
    (spells : Cut.Spells text lexeme goesOn) (ends : Cut.Ends goesOn rest)
    (blank : ∀ c ∈ gaps i, Text.isBlank c = true) :
    Cut.Ends goesOn (gaps i ++ fill gaps i rest) := by
  cases gap : gaps i with
  | nil =>
    cases rest with
    | nil => exact Cut.ends_nil _
    | cons c rest => exact Cut.ends_cons.2 (Cut.ends_cons.1 ends)
  | cons c gap' =>
    rw [gap] at blank
    exact Cut.ends_cons.2 (spells.not_goesOn_of_isBlank (blank c List.mem_cons_self))

/-- The tokens of a text with blanks inserted are those of the text, each where its first character
was moved. -/
theorem tokens_fill (spaced : cursor.Spaced gaps)
    (at_ : position + (gaps cursor.position).length = place gaps cursor.position) :
    tokens ⟨gaps cursor.position ++ fill gaps cursor.position cursor.rest, position⟩ =
      cursor.tokens.relocate (place gaps) := by
  induction cursor using tokens.induct generalizing position with
  | case1 cursor error stop found =>
    have skipped := skipBlanks_fill spaced.blank cursor.rest at_
    obtain ⟨c, tail, start, fault, start_eq, fails, rfl⟩ := exists_fault_of_next found
    -- nothing is inserted into what is no word, so the fault keeps its distance from the start
    have closed {i} : start < i → gaps i = [] := fun gt =>
      spaced.closed_of_fault (by simp [found]) (by rwa [start_eq])
    rw [start_eq] at skipped
    have kept : fill gaps start (c :: tail) = c :: tail := by
      have whole : fill gaps start (c :: tail ++ []) = _ :=
        fill_append (List.cons_ne_nil c tail) (fun j gt _ => closed gt) []
      simpa [fill, closed] using whole
    have moved : (fault.shift start).relocate (place gaps) = fault.shift (place gaps start) := by
      rw [Located.relocate, Located.shift, Nat.add_comm, place_add fun j gt _ => closed gt,
        Located.shift, Nat.add_comm fault.position]
    rw [kept] at skipped
    obtain ⟨_, found'⟩ := next_of_fault skipped fails
    rw [tokens_of_error found, tokens_of_error found', ← moved]
    rfl
  | case2 cursor start stop found =>
    have skipped := skipBlanks_fill spaced.blank cursor.rest at_
    rw [skipBlanks_of_end found] at skipped
    rw [tokens_of_end found, tokens_of_end (next_of_end skipped)]
    rfl
  | case3 cursor lexeme start stop found ih =>
    have skipped := skipBlanks_fill spaced.blank cursor.rest at_
    obtain ⟨text, goesOn, start_eq, spells, ends, behind⟩ := exists_spells_of_next found
    have pos := List.length_pos_iff.2 spells.ne_nil
    have closed (j : Nat) (gt : start < j) (lt : j < start + text.length) : gaps j = [] :=
      spaced.closed found gt (by rwa [behind])
    rw [start_eq] at skipped
    simp only at skipped
    rw [fill_append spells.ne_nil closed, ← behind] at skipped
    -- the word ends where it did, since a blank goes on with no word
    have found' := next_of_spells skipped spells (ends_fill spells ends (spaced.blank _))
    have stops := place_behind pos closed
    rw [← behind] at stops
    rw [tokens_of_word found, tokens_of_word found', ih (spaced.behind found) stops]
    rfl

/-- A character of a text is behind all that is inserted in front of it. -/
lemma exists_fill_append (i position : Nat) (before rest : List Char)
    (at_ : position + (gaps i).length = place gaps i) :
    ∃ moved, gaps i ++ fill gaps i (before ++ rest) = moved ++ fill gaps (i + before.length) rest ∧
      position + moved.length = place gaps (i + before.length) := by
  induction before generalizing i position with
  | nil => exact ⟨gaps i, rfl, at_⟩
  | cons c before ih =>
    obtain ⟨moved, whole, length⟩ := ih (i + 1) (place gaps i + 1) rfl
    have offset : i + (c :: before).length = i + 1 + before.length := by
      rw [List.length_cons]
      omega
    refine ⟨gaps i ++ c :: moved, ?_, ?_⟩
    · rw [List.cons_append, fill, whole, offset, List.append_assoc, List.cons_append]
    · rw [offset, ← length, ← at_, List.length_append, List.length_cons]
      omega

/-- Each word starts where no other one is torn. -/
lemma boundary_of_mem_tokens {token : Token} (mem : token ∈ cursor.tokens.list) :
    cursor.Boundary token.position := by
  replace mem := finds_of_mem_tokens mem
  induction mem with
  | @here cursor stop lexeme position found =>
    obtain ⟨_, _, skipped, -⟩ := exists_spells_of_next found
    have before := cursor.position_le_skipBlanks
    rw [skipped] at before
    exact .gap before (by rw [skipped])
  | later found _ ih => exact .later found ih

end Cursor

/-- Blanks to be put between the words of a text: what is inserted in front of the character at each
offset, and at the end. -/
structure Spacing (text : String) where
  /-- What is inserted at an offset. -/
  gaps : Nat → List Char
  spaced : (Cursor.start text).Spaced gaps

namespace Spacing
variable {text : String} (spacing : Spacing text)

/-- A blank in front of each word. -/
def apart (text : String) : Spacing text where
  gaps i := if i ∈ (Tokens.ofText text).list.map Located.position then [' '] else []
  spaced := by
    refine ⟨fun i c mem => ?_, fun i _ nonempty => ?_⟩
    · split at mem
      · rw [List.mem_singleton.1 mem]
        rfl
      · cases mem
    · split at nonempty
      next start =>
        obtain ⟨token, mem, rfl⟩ := List.mem_map.1 start
        exact Cursor.boundary_of_mem_tokens mem
      next => exact absurd rfl nonempty

/-- The text with the blanks in it. -/
def widened : String :=
  String.ofList (spacing.gaps 0 ++ Cursor.fill spacing.gaps 0 text.toList)

/-- Where the character at an offset of the text is in the widened one. -/
def place : Nat → Nat :=
  Cursor.place spacing.gaps

/-- The tokens of the widened text are those of the text, each where its first character was
moved. -/
theorem ofText_widened :
    Tokens.ofText spacing.widened = (Tokens.ofText text).relocate spacing.place := by
  have moved : Cursor.tokens ⟨_, 0⟩ = _ := Cursor.tokens_fill spacing.spaced (Nat.zero_add _)
  rw [Tokens.ofText, Cursor.start, widened, String.toList_ofList]
  exact moved

/-- A text that starts with some characters is widened to one that starts with these, widened. -/
lemma exists_widened {before rest : List Char} (split : text.toList = before ++ rest) :
    ∃ moved, spacing.widened.toList = moved ++ Cursor.fill spacing.gaps before.length rest ∧
      moved.length = spacing.place before.length := by
  obtain ⟨moved, whole, length⟩ :=
    Cursor.exists_fill_append 0 0 before rest (Nat.zero_add (spacing.gaps 0).length)
  simp only [Nat.zero_add] at whole length
  refine ⟨moved, ?_, length⟩
  rw [widened, String.toList_ofList, split, whole]

/-- Each character of the text is in the widened one where it was moved. -/
lemma getElem?_widened {i : Nat} {c : Char} (found : text.toList[i]? = some c) :
    spacing.widened.toList[spacing.place i]? = some c := by
  obtain ⟨lt, rfl⟩ := List.getElem?_eq_some_iff.1 found
  have split : text.toList = text.toList.take i ++ text.toList[i] :: text.toList.drop (i + 1) := by
    rw [List.getElem_cons_drop, List.take_append_drop]
  obtain ⟨moved, whole, length⟩ := spacing.exists_widened split
  rw [List.length_take_of_le (Nat.le_of_lt lt)] at length
  rw [whole, ← length, List.getElem?_append_right (Nat.le_refl _), Nat.sub_self, Cursor.fill]
  rfl

/-- The end of the text is moved to the end of the widened one. -/
lemma place_length : spacing.place text.length = spacing.widened.length := by
  obtain ⟨moved, whole, length⟩ := spacing.exists_widened (List.append_nil _).symm
  rw [← String.length_toList, ← length, ← String.length_toList, whole, Cursor.fill,
    List.append_nil]

end Spacing

/-- Blanks may stand around each word. -/
example : ∃ spacing : Spacing "(x", spacing.widened = " ( x\t" := by
  refine ⟨⟨fun | 0 => [' '] | 1 => [' '] | 2 => ['\t'] | _ => [], ?_, ?_⟩, rfl⟩
  · rintro (_ | _ | _ | _) <;> simp <;> rfl
  · rintro (_ | _ | _ | _) _ nonempty
    · exact .gap (by decide) (by decide)
    · exact .later rfl (.gap (by decide) (by decide))
    · exact .later rfl (.later rfl (.gap (by decide) (by decide)))
    · exact absurd rfl nonempty

end ArithExpr
