import ArithExpr.Token.Cut

/-!
# From a text to tokens

A lexer finds one word after the other, skipping blanks before each, until the text ends or has no
word at its front. Main statement: every word found brings the end of the text nearer, so a text has
finitely many tokens.
-/

namespace ArithExpr

/-- A place in a text. -/
structure Cursor where
  /-- The characters from this place on. -/
  rest : List Char
  /-- The number of characters before it. -/
  position : Nat

namespace Cursor

/-- The start of a text. -/
def start (text : String) : Cursor :=
  ⟨text.toList, 0⟩

/-- The first place from here on that is not a blank. -/
def skipBlanks (cursor : Cursor) : Cursor :=
  ⟨cursor.rest.dropWhile Text.isBlank,
    cursor.position + (cursor.rest.takeWhile Text.isBlank).length⟩

/-- What a lexer finds at one place: a word, the end of the input, or an error. -/
abbrev Answer := Except LexError (Located (Option Lexeme))

/-- What a cut at a place finds there, and the place behind what it takes. -/
def ofCut (position : Nat) (cut : Cut) : Answer × Cursor :=
  let stop : Cursor := ⟨cut.rest, position + cut.taken.length⟩
  match cut.outcome with
  | .ok lexeme => (.ok ⟨some lexeme, position⟩, stop)
  | .error error => (.error (error.shift position), stop)

/-- The word at a place, or the end of the input there, and the place behind it. -/
def word (cursor : Cursor) : Answer × Cursor :=
  match cursor.rest with
  | [] => (.ok ⟨none, cursor.position⟩, cursor)
  | c :: tail => ofCut cursor.position (Cut.first c tail)

/-- The first word from a place on, or the end of the input behind it, and the place behind that. -/
def next (cursor : Cursor) : Answer × Cursor :=
  cursor.skipBlanks.word

/-- Skipping blanks leaves no more than there was. -/
theorem rest_skipBlanks_le (cursor : Cursor) :
    cursor.skipBlanks.rest.length ≤ cursor.rest.length :=
  (List.dropWhile_suffix _).length_le

/-- Behind a word less is left. -/
theorem word_shorter {cursor stop : Cursor} {lexeme : Lexeme} {position : Nat}
    (found : cursor.word = (.ok ⟨some lexeme, position⟩, stop)) :
    stop.rest.length < cursor.rest.length := by
  unfold word at found
  split at found
  next => simp at found
  next c tail eq =>
    unfold ofCut at found
    split at found
    next ok =>
      obtain ⟨-, rfl⟩ := Prod.mk.inj found
      rw [eq]
      exact Cut.first_shorter ok
    next => simp at found

/-- A word that is found brings the end of the text nearer. -/
theorem next_shorter {cursor stop : Cursor} {lexeme : Lexeme} {position : Nat}
    (found : cursor.next = (.ok ⟨some lexeme, position⟩, stop)) :
    stop.rest.length < cursor.rest.length :=
  Nat.lt_of_lt_of_le (word_shorter found) cursor.rest_skipBlanks_le

end Cursor

/-- How the tokens of a text end: where the text does, or with an error. -/
inductive Ending where
  | finish (position : Nat)
  | fault (error : LexError)

/-- The offset at which the tokens of a text end. -/
def Ending.position : Ending → Nat
  | .finish position => position
  | .fault error => error.position

/-- The tokens of a text up to its end or to the first error. -/
structure Tokens where
  /-- The words, in order. -/
  list : List Token
  /-- What stands behind them. -/
  ending : Ending

/-- The tokens from a place on. -/
def Cursor.tokens (cursor : Cursor) : Tokens :=
  match _found : cursor.next with
  | (.error error, _) => ⟨[], .fault error⟩
  | (.ok ⟨none, position⟩, _) => ⟨[], .finish position⟩
  | (.ok ⟨some lexeme, position⟩, stop) =>
    let tokens := stop.tokens
    ⟨⟨lexeme, position⟩ :: tokens.list, tokens.ending⟩
termination_by cursor.rest.length
decreasing_by exact Cursor.next_shorter _found

/-- The tokens of a text. -/
def Tokens.ofText (text : String) : Tokens :=
  (Cursor.start text).tokens

/-- A place in a text, and whether the listing of its tokens is over. -/
structure Lexer where
  /-- Where the next word is looked for. -/
  cursor : Cursor
  /-- Whether an error or the end of the input has been listed. -/
  finished : Bool

namespace Lexer

/-- A lexer at the start of a text. -/
def start (text : String) : Lexer :=
  ⟨.start text, false⟩

/-- Finds the next word, listed or not. At the end of the input and at a character that starts no
word it finds the same again. -/
def nextToken (lexer : Lexer) : Cursor.Answer × Lexer :=
  let (answer, cursor) := lexer.cursor.next
  (answer, { lexer with cursor })

/-- Whether an answer is the last one that is listed. -/
def isLast : Cursor.Answer → Bool
  | .ok ⟨some _, _⟩ => false
  | .ok ⟨none, _⟩ => true
  | .error _ => true

/-- Lists the next word; after an error and after the end of the input the listing is over. -/
def next (lexer : Lexer) : Option Cursor.Answer × Lexer :=
  if lexer.finished then (none, lexer)
  else
    let (answer, lexer) := lexer.nextToken
    (some answer, { lexer with finished := isLast answer })

end Lexer

/-- All that a lexer lists from the start of a text: its words, then the end or an error. -/
def Tokens.answers (tokens : Tokens) : List Cursor.Answer :=
  tokens.list.map (fun token => .ok (token.map some)) ++
    [match tokens.ending with
      | .finish position => .ok ⟨none, position⟩
      | .fault error => .error error]

end ArithExpr
