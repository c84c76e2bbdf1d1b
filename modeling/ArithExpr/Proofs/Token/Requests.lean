import ArithExpr.Proofs.Token.Layout
import Mathlib.Data.List.Perm.Subperm
import Mathlib.Data.List.ReduceOption

/-!
# Asking a lexer in any order

A lexer lists its words until the first error or the end of the text, and it can be asked for the
next word whether that is listed or not. Both requests move one and the same place, and only the
listing can be over. Main statement: in whatever order the requests come, the answers are those that
a fresh lexer finds one after the other, and behind an error it goes on as a fresh one does with the
text that is left (`Lexer.run_resumes`).
-/

namespace ArithExpr

/-- In front of a character that starts no word nothing is taken. -/
lemma Cut.Fails.taken_eq_nil {taken rest c} (fails : Fails taken rest (.unexpectedCharacter c)) :
    taken = [] := by
  cases fails with
  | unexpectedCharacter => rfl

namespace Cursor
variable {cursor stop : Cursor} {text : List Char} {n : Nat}

/-- A place further to the right, in front of the same text. -/
def shift (cursor : Cursor) (offset : Nat) : Cursor :=
  ⟨cursor.rest, cursor.position + offset⟩

/-- An answer further to the right. -/
def Answer.shift (answer : Answer) (offset : Nat) : Answer :=
  (answer.map fun found => found.shift offset).mapError fun error => error.shift offset

/-- The word of an answer, if it is one. -/
def Answer.word? : Answer → Option Token
  | .ok ⟨some lexeme, position⟩ => some ⟨lexeme, position⟩
  | _ => none

/-- The answers that are found one after the other. -/
def successive : Nat → Cursor → List Answer
  | 0, _ => []
  | n + 1, cursor => cursor.next.1 :: successive n cursor.next.2

/-- An answer leaves the lexer behind the characters taken. -/
lemma ofCut_stop (position : Nat) (cut : Cut) :
    (ofCut position cut).2 = ⟨cut.rest, position + cut.taken.length⟩ := by
  unfold ofCut
  split <;> rfl

/-- An answer further to the right is the same one, moved. -/
lemma ofCut_shift (position offset : Nat) (cut : Cut) :
    ofCut (position + offset) cut =
      (Answer.shift (ofCut position cut).1 offset, (ofCut position cut).2.shift offset) := by
  unfold ofCut
  simp only [Nat.add_right_comm position offset]
  split
  next => rfl
  next error _ =>
    have moved : error.shift (position + offset) = (error.shift position).shift offset :=
      congrArg (Located.mk error.value) (Nat.add_assoc _ _ _).symm
    rw [moved]
    rfl

/-- What is found does not depend on how many characters stand in front of it. -/
lemma next_shift (cursor : Cursor) (offset : Nat) :
    (cursor.shift offset).next =
      (Answer.shift cursor.next.1 offset, cursor.next.2.shift offset) := by
  have skipped : (cursor.shift offset).skipBlanks = cursor.skipBlanks.shift offset := by
    rw [skipBlanks, skipBlanks, shift, shift, Nat.add_right_comm]
  rw [next, next, skipped]
  obtain ⟨characters, position⟩ := cursor.skipBlanks
  cases characters with
  | nil => rfl
  | cons c tail => exact ofCut_shift position offset (Cut.first c tail)

/-- The answers from a place further to the right are the same ones, moved. -/
lemma successive_shift (cursor : Cursor) (offset n : Nat) :
    (cursor.shift offset).successive n =
      (cursor.successive n).map fun answer => Answer.shift answer offset := by
  induction n generalizing cursor with
  | zero => rfl
  | succ n ih => rw [successive, successive, next_shift, ih, List.map_cons]

/-- A place of a text. -/
def Within (text : List Char) (cursor : Cursor) : Prop :=
  ∃ before, text = before ++ cursor.rest ∧ cursor.position = before.length

namespace Within

/-- The start of a text is a place of it. -/
lemma start (text : String) : (Cursor.start text).Within text.toList :=
  ⟨[], rfl, rfl⟩

/-- The place behind some characters of a text is a place of it. -/
lemma behind (within : cursor.Within text) {taken : List Char}
    (whole : cursor.rest = taken ++ stop.rest)
    (position : stop.position = cursor.position + taken.length) : stop.Within text := by
  obtain ⟨before, same, length⟩ := within
  refine ⟨before ++ taken, ?_, ?_⟩
  · rw [same, whole, List.append_assoc]
  · rw [position, length, List.length_append]

/-- The place behind the blanks is a place of the same text. -/
lemma skipBlanks (within : cursor.Within text) : cursor.skipBlanks.Within text :=
  within.behind List.takeWhile_append_dropWhile.symm rfl

/-- The place behind an answer is one of the same text. -/
lemma next (within : cursor.Within text) : cursor.next.2.Within text := by
  have skipped := within.skipBlanks
  rw [Cursor.next]
  generalize cursor.skipBlanks = here at skipped ⊢
  obtain ⟨characters, position⟩ := here
  cases characters with
  | nil => exact skipped
  | cons c tail =>
    show (ofCut position (Cut.first c tail)).2.Within text
    rw [ofCut_stop]
    exact skipped.behind (Cut.first_append c tail).symm rfl

/-- A place tells how much of its text is left. -/
lemma rest_eq (within : cursor.Within text) : cursor.rest = text.drop cursor.position := by
  obtain ⟨before, rfl, length⟩ := within
  rw [length, List.drop_left]

/-- What is in front of a place and what is behind it make up the text. -/
lemma position_add (within : cursor.Within text) :
    cursor.position + cursor.rest.length = text.length := by
  obtain ⟨before, rfl, length⟩ := within
  rw [length, List.length_append]

end Within

/-- An error is at the place behind it, in front of what is no word. -/
lemma exists_fails_of_next {error} (found : cursor.next = (.error error, stop)) :
    ∃ taken, cursor.skipBlanks.rest = taken ++ stop.rest ∧
      Cut.Fails taken stop.rest error.value ∧
      error.position = stop.position ∧
      stop.position = cursor.skipBlanks.position + taken.length := by
  obtain ⟨c, tail, position, fault, skipped, failed, rfl⟩ := exists_fault_of_next found
  obtain ⟨fails, behind⟩ := Cut.fails_of_first failed
  have stops : (ofCut position (Cut.first c tail)).2 = stop := by
    rw [next, skipped] at found
    exact congrArg Prod.snd found
  rw [ofCut_stop] at stops
  subst stops
  rw [skipped]
  refine ⟨_, (Cut.first_append c tail).symm, fails, ?_, rfl⟩
  rw [Located.shift, behind, Nat.add_comm]

/-- The end of a text is found again and again. -/
lemma next_of_found_end {position} (found : cursor.next = (.ok ⟨none, position⟩, stop)) :
    stop = ⟨[], position⟩ ∧ stop.next = (.ok ⟨none, position⟩, stop) := by
  have found' := next_of_end (skipBlanks_of_end found)
  obtain rfl : stop = ⟨[], position⟩ := congrArg Prod.snd (found.symm.trans found')
  exact ⟨rfl, next_of_end rfl⟩

/-- What starts no word is found again and again. -/
lemma next_of_found_unexpected {c position}
    (found : cursor.next = (.error ⟨.unexpectedCharacter c, position⟩, stop)) :
    stop.next = (.error ⟨.unexpectedCharacter c, position⟩, stop) := by
  obtain ⟨taken, whole, fails, -, behind⟩ := exists_fails_of_next found
  -- nothing was taken behind the blanks, so the next answer is looked for at the same character
  obtain rfl := fails.taken_eq_nil
  have here : cursor.skipBlanks = stop := by
    obtain ⟨rest, place⟩ := stop
    rw [List.nil_append] at whole
    rw [List.length_nil, Nat.add_zero] at behind
    exact congrArg₂ Cursor.mk whole behind.symm
  have visible : stop.skipBlanks = stop := by
    rw [← here]
    exact skipBlanks_gap (List.forall_mem_nil _) (Cut.ends_dropWhile _ _)
  rw [next, here] at found
  rw [next, visible, found]

/-- A word is between the places before it and behind it. -/
lemma position_of_found_word {word} (found : cursor.next.1.word? = some word) :
    cursor.position ≤ word.position ∧ word.position < cursor.next.2.position := by
  obtain ⟨stop, found⟩ : ∃ stop, cursor.next = (.ok ⟨some word.value, word.position⟩, stop) := by
    generalize cursor.next = answered at found ⊢
    obtain ⟨answer, stop⟩ := answered
    unfold Answer.word? at found
    split at found
    next same => cases found; exact ⟨stop, congrArg (·, stop) same⟩
    next => cases found
  obtain ⟨text, _, skipped, spells, -, behind⟩ := exists_spells_of_next found
  have le : cursor.position ≤ cursor.skipBlanks.position := Nat.le_add_right _ _
  have pos := List.length_pos_iff.2 spells.ne_nil
  rw [skipped] at le
  rw [found]
  exact ⟨le, by simp only; omega⟩

/-- The lexer does not go back. -/
lemma position_le_next (cursor : Cursor) : cursor.position ≤ cursor.next.2.position := by
  have skipped : cursor.position ≤ cursor.skipBlanks.position := Nat.le_add_right _ _
  rw [next]
  generalize cursor.skipBlanks = here at skipped ⊢
  obtain ⟨characters, position⟩ := here
  cases characters with
  | nil => exact skipped
  | cons c tail =>
    show cursor.position ≤ (ofCut position (Cut.first c tail)).2.position
    rw [ofCut_stop]
    exact Nat.le_add_right_of_le skipped

/-- There are not more increasing places in a text than characters. -/
lemma length_le_of_pairwise {places : List Nat} {n} (increasing : places.Pairwise (· < ·))
    (inside : ∀ place ∈ places, place < n) : places.length ≤ n := by
  have different : places.Nodup := increasing.imp Nat.ne_of_lt
  have subset : places ⊆ List.range n := fun place mem => List.mem_range.2 (inside place mem)
  have le := (List.subperm_of_subset different subset).length_le
  rwa [List.length_range] at le

/-- The words found from a place on are between that place and the end of the text, each further to
the right than those before it. -/
lemma Within.words (within : cursor.Within text) (n : Nat) :
    (∀ word ∈ (cursor.successive n).filterMap Answer.word?,
      cursor.position ≤ word.position ∧ word.position < text.length) ∧
    (((cursor.successive n).filterMap Answer.word?).map Located.position).Pairwise (· < ·) := by
  induction n generalizing cursor with
  | zero => exact ⟨List.forall_mem_nil _, .nil⟩
  | succ n ih =>
    obtain ⟨bounds, increasing⟩ := ih within.next
    have later := cursor.position_le_next
    have left := within.next.position_add
    rw [successive]
    cases found : cursor.next.1.word? with
    | none =>
      rw [List.filterMap_cons_none found]
      exact ⟨fun word mem => ⟨later.trans (bounds word mem).1, (bounds word mem).2⟩, increasing⟩
    | some word =>
      obtain ⟨after, before⟩ := position_of_found_word found
      rw [List.filterMap_cons_some found, List.forall_mem_cons, List.map_cons, List.pairwise_cons,
        List.forall_mem_map]
      refine ⟨⟨⟨after, by omega⟩, fun word mem => ⟨later.trans (bounds word mem).1,
        (bounds word mem).2⟩⟩, fun word mem => ?_, increasing⟩
      exact Nat.lt_of_lt_of_le before (bounds word mem).1

end Cursor

namespace Lexer

/-- What a lexer is asked: the next item of its list, or the next word whether it is listed or
not. -/
inductive Request where
  | next
  | nextToken

/-- Answers a request, unless it is for the list and the list is over. -/
def answer (lexer : Lexer) : Request → Option Cursor.Answer × Lexer
  | .next => lexer.next
  | .nextToken => lexer.nextToken.map some id

/-- Answers one request after the other. -/
def run (lexer : Lexer) : List Request → List (Option Cursor.Answer) × Lexer
  | [] => ([], lexer)
  | request :: requests =>
    let (answer, lexer) := lexer.answer request
    let (answers, lexer) := lexer.run requests
    (answer :: answers, lexer)

/-- What a lexer does with a request. -/
inductive Answered (lexer : Lexer) : Request → Option Cursor.Answer → Lexer → Prop where
  | silent :
    lexer.finished = true →
    Answered lexer .next none lexer
  | listed :
    lexer.finished = false →
    Answered lexer .next (some lexer.cursor.next.1)
      ⟨lexer.cursor.next.2, isLast lexer.cursor.next.1⟩
  | found :
    Answered lexer .nextToken (some lexer.cursor.next.1) ⟨lexer.cursor.next.2, lexer.finished⟩

/-- A request is answered in one of the ways that there are. -/
theorem answered (lexer : Lexer) (request : Request) :
    Answered lexer request (lexer.answer request).1 (lexer.answer request).2 := by
  cases request with
  | nextToken => exact .found
  | next =>
    rw [answer, next]
    split
    next finished => exact .silent finished
    next listed => exact .listed (Bool.eq_false_iff.2 listed)

variable {lexer : Lexer} {requests : List Request}

/-- An answer is what is found at the place of the lexer. -/
lemma next_of_answer {request answer} (given : (lexer.answer request).1 = some answer) :
    lexer.cursor.next = (answer, (lexer.answer request).2.cursor) := by
  have answered := lexer.answered request
  generalize lexer.answer request = reply at answered given ⊢
  obtain ⟨reply, after⟩ := reply
  cases answered with
  | silent => cases given
  | listed => cases given; rfl
  | found => cases given; rfl

/-- The answers given are those found one after the other. -/
lemma reduceOption_run (lexer : Lexer) (requests : List Request) :
    (lexer.run requests).1.reduceOption =
      lexer.cursor.successive (lexer.run requests).1.reduceOption.length := by
  induction requests generalizing lexer with
  | nil => rfl
  | cons request requests ih =>
    have answered := lexer.answered request
    rw [run]
    generalize lexer.answer request = reply at answered
    obtain ⟨answer, after⟩ := reply
    cases answered with
    | silent => exact ih _
    | listed _ => exact congrArg _ (ih _)
    | found => exact congrArg _ (ih _)

/-- Asked for words only, a lexer gives every answer. -/
lemma run_replicate (lexer : Lexer) (n : Nat) :
    (lexer.run (.replicate n .nextToken)).1 = (lexer.cursor.successive n).map some := by
  induction n generalizing lexer with
  | zero => rfl
  | succ n ih => exact congrArg _ (ih _)

/-- The list is over behind an item of it that is an error or the end of the text. -/
lemma finished_run (lexer : Lexer) (requests : List Request) :
    (lexer.run requests).2.finished = true ↔ lexer.finished = true ∨
      ∃ answer, (.next, some answer) ∈ requests.zip (lexer.run requests).1 ∧
        isLast answer = true := by
  induction requests generalizing lexer with
  | nil => simp [run]
  | cons request requests ih =>
    have answered := lexer.answered request
    rw [run]
    generalize lexer.answer request = reply at answered
    obtain ⟨answer, after⟩ := reply
    refine (ih after).trans ?_
    cases answered with
    | silent => simp
    | listed listed => simp [listed]
    | found => simp

/-- What the next answer keeps of the place of a lexer, every run keeps. -/
lemma run_keeps {kept : Cursor → Prop} (step : ∀ cursor, kept cursor → kept cursor.next.2)
    (first : kept lexer.cursor) (requests : List Request) :
    kept (lexer.run requests).2.cursor := by
  induction requests generalizing lexer with
  | nil => exact first
  | cons request requests ih =>
    have answered := lexer.answered request
    rw [run]
    generalize lexer.answer request = reply at answered
    obtain ⟨answer, after⟩ := reply
    cases answered with
    | silent => exact ih first
    | listed => exact ih (step _ first)
    | found => exact ih (step _ first)

/-- The list gives no answer exactly when it is over. -/
lemma answer_next_eq_none_iff : (lexer.answer .next).1 = none ↔ lexer.finished = true := by
  rw [answer, next]
  cases lexer.finished <;> simp

/-- Where the next answer leaves a lexer in its place, every run does. -/
lemma cursor_run_of_stays (stays : lexer.cursor.next.2 = lexer.cursor) (requests : List Request) :
    (lexer.run requests).2.cursor = lexer.cursor := by
  have keeps (cursor : Cursor) (same : cursor = lexer.cursor) :
      cursor.next.2 = lexer.cursor := by
    rw [same]
    exact stays
  exact run_keeps keeps rfl requests

/-- A run in which the end was found stands at the end. -/
lemma cursor_run_of_end {position} (mem : some (.ok ⟨none, position⟩) ∈ (lexer.run requests).1) :
    (lexer.run requests).2.cursor = ⟨[], position⟩ := by
  induction requests generalizing lexer with
  | nil => cases mem
  | cons request requests ih =>
    obtain given | mem := List.mem_cons.1 mem
    · obtain ⟨stop, again⟩ := Cursor.next_of_found_end (next_of_answer given.symm)
      exact (cursor_run_of_stays (congrArg Prod.snd again) requests).trans stop
    · exact ih mem

/-- Behind an error a lexer stands in front of the rest of the text. -/
lemma cursor_of_error {text : List Char} (within : lexer.cursor.Within text) {request error}
    (failed : (lexer.answer request).1 = some (.error error)) :
    (lexer.answer request).2.cursor = ⟨text.drop error.position, error.position⟩ := by
  have found := next_of_answer failed
  have behind := within.next
  rw [found] at behind
  obtain ⟨-, -, -, position, -⟩ := Cursor.exists_fails_of_next found
  rw [position, ← behind.rest_eq]

/-- The answers given to later requests are those given further to the left, moved. -/
lemma reduceOption_run_of_shift {offset : Nat} {cursor : Cursor}
    (moved : lexer.cursor = cursor.shift offset) (later : List Request) :
    (lexer.run later).1.reduceOption =
      (cursor.successive (lexer.run later).1.reduceOption.length).map
        fun answer => Cursor.Answer.shift answer offset := by
  rw [← Cursor.successive_shift, ← moved]
  exact reduceOption_run lexer later

/-- The answers of a run, without those that were none, are the ones a fresh lexer finds one after
the other. None is what the list answers once one of its items was an error or the end. The places
of the words increase and there are not more of them than characters; the end is behind all of them
and is found again and again. Behind an error the answers are those of a fresh lexer for the text
that is left, moved there, and a character that starts no word is found again and again. -/
theorem run_resumes (text : String) (requests : List Request) :
    let lexer := ((start text).run requests).2
    let answers := ((start text).run requests).1
    let words := answers.reduceOption.filterMap Cursor.Answer.word?
    answers.reduceOption.map some =
      ((start text).run (.replicate answers.reduceOption.length .nextToken)).1 ∧
    ((lexer.answer .next).1 = none ↔
      ∃ answer, (.next, some answer) ∈ requests.zip answers ∧ isLast answer = true) ∧
    ((words.map Located.position).Pairwise (· < ·) ∧ words.length ≤ text.length) ∧
    (∀ position, some (.ok ⟨none, position⟩) ∈ answers →
      (∀ word ∈ words, word.position < position) ∧
      lexer.nextToken.1 = .ok ⟨none, position⟩) ∧
    ∀ request error, (lexer.answer request).1 = some (.error error) → ∀ later,
      let after := ((lexer.answer request).2.run later)
      let rest := String.ofList (text.toList.drop error.position)
      after.1.reduceOption.map some =
        ((start rest).run (.replicate after.1.reduceOption.length .nextToken)).1.map
          (Option.map fun answer => Cursor.Answer.shift answer error.position) ∧
      ∀ c, error.value = .unexpectedCharacter c → after.2.nextToken.1 = .error error := by
  intro lexer answers words
  have within : lexer.cursor.Within text.toList :=
    run_keeps (fun _ => .next) (.start text) requests
  have given := reduceOption_run (start text) requests
  obtain ⟨bounds, increasing⟩ : (∀ word ∈ words, _) ∧ _ :=
    given ▸ (Cursor.Within.start text).words _
  have inside : ∀ place ∈ words.map Located.position, place < text.length := by
    rw [← String.length_toList, List.forall_mem_map]
    exact fun word mem => (bounds word mem).2
  refine ⟨?_, ?_, ⟨increasing, ?_⟩, fun position ended => ?_, fun request error failed later => ?_⟩
  · rw [run_replicate, ← given]
  · rw [answer_next_eq_none_iff, finished_run]
    exact or_iff_right Bool.false_ne_true
  · have count := Cursor.length_le_of_pairwise increasing inside
    rwa [List.length_map] at count
  · have stopped : lexer.cursor = ⟨[], position⟩ := cursor_run_of_end ended
    obtain rfl : position = text.length := by
      have last := within.position_add
      rwa [stopped, List.length_nil, String.length_toList] at last
    refine ⟨fun word mem => inside _ (List.mem_map_of_mem mem), ?_⟩
    rw [nextToken, stopped]
    rfl
  · have behind := cursor_of_error within failed
    have moved : (lexer.answer request).2.cursor =
        Cursor.shift ⟨text.toList.drop error.position, 0⟩ error.position := by
      rw [behind, Cursor.shift, Nat.zero_add]
    have again := reduceOption_run_of_shift moved later
    refine ⟨?_, fun c unexpected => ?_⟩
    · rw [run_replicate, start, Cursor.start, String.toList_ofList, List.map_map]
      exact (congrArg (List.map some) again).trans (List.map_map ..)
    · obtain ⟨fault, place⟩ := error
      cases unexpected
      have found := Cursor.next_of_found_unexpected (next_of_answer failed)
      have stays := cursor_run_of_stays (congrArg Prod.snd found) later
      rw [nextToken, stays]
      exact congrArg Prod.fst found

end Lexer
end ArithExpr
