import ArithExpr.Token.Lexer
import Mathlib.Tactic.Lemma

/-!
# The tokens from a place on

The listing of tokens follows the lexer from one place to the next: the first answer decides what
the listing starts with. Main statement: a text has at most as many tokens as characters
(`Tokens.length_ofText_le`).
-/

namespace ArithExpr
namespace Cursor

/-- A character that is a word of its own is found as that word. -/
lemma next_symbol {c lexeme} (symbol : Lexeme.ofSymbol? c = some lexeme) (tail : List Char)
    (position : Nat) :
    next ⟨c :: tail, position⟩ = (.ok ⟨some lexeme, position⟩, ⟨tail, position + 1⟩) := by
  unfold Lexeme.ofSymbol? at symbol
  split at symbol
  all_goals cases symbol
  all_goals rfl

/-- Where the first thing found is an error there are no tokens in front of it. -/
lemma tokens_of_error {cursor stop : Cursor} {error} (found : cursor.next = (.error error, stop)) :
    cursor.tokens = ⟨[], .fault error⟩ := by
  rw [tokens]
  split <;> simp_all

/-- Where the first thing found is the end there are no tokens. -/
lemma tokens_of_end {cursor stop : Cursor} {position}
    (found : cursor.next = (.ok ⟨none, position⟩, stop)) :
    cursor.tokens = ⟨[], .finish position⟩ := by
  rw [tokens]
  split <;> simp_all

/-- Where the first thing found is a word it is the first token. -/
lemma tokens_of_word {cursor stop : Cursor} {lexeme position}
    (found : cursor.next = (.ok ⟨some lexeme, position⟩, stop)) :
    cursor.tokens = ⟨⟨lexeme, position⟩ :: stop.tokens.list, stop.tokens.ending⟩ := by
  rw [tokens]
  split <;> simp_all

/-- Each token takes a character. -/
lemma length_tokens_le (cursor : Cursor) : cursor.tokens.list.length ≤ cursor.rest.length := by
  induction cursor using tokens.induct with
  | case1 cursor error stop found =>
    rw [tokens_of_error found]
    exact Nat.zero_le _
  | case2 cursor stop position found =>
    rw [tokens_of_end found]
    exact Nat.zero_le _
  | case3 cursor stop lexeme position found ih =>
    have shorter := next_shorter found
    rw [tokens_of_word found, List.length_cons]
    omega

/-- The lexer finds a token at a place, or behind the words that it finds there. -/
inductive Finds : Cursor → Token → Prop where
  | here {cursor stop : Cursor} {lexeme position} :
    cursor.next = (.ok ⟨some lexeme, position⟩, stop) →
    Finds cursor ⟨lexeme, position⟩
  | later {cursor stop : Cursor} {lexeme position token} :
    cursor.next = (.ok ⟨some lexeme, position⟩, stop) →
    Finds stop token →
    Finds cursor token

/-- A token is found somewhere on the way through the text. -/
lemma finds_of_mem_tokens {cursor : Cursor} {token} (mem : token ∈ cursor.tokens.list) :
    cursor.Finds token := by
  induction cursor using tokens.induct with
  | case1 cursor error stop found =>
    rw [tokens_of_error found] at mem
    cases mem
  | case2 cursor stop position found =>
    rw [tokens_of_end found] at mem
    cases mem
  | case3 cursor stop lexeme position found ih =>
    rw [tokens_of_word found] at mem
    obtain rfl | mem := List.mem_cons.1 mem
    · exact .here found
    · exact .later found (ih mem)

end Cursor

/-- A text has at most as many tokens as characters. -/
theorem Tokens.length_ofText_le (text : String) : (ofText text).list.length ≤ text.length := by
  rw [← String.length_toList]
  exact (Cursor.start text).length_tokens_le

end ArithExpr
