import ArithExpr.Decimal.Display
import ArithExpr.Operator

/-!
# Tokens

The words of an expression. A token is such a word with the offset of its first character; the end
of the input is not a word, and where a word may be missing an `Option` says so.
-/

namespace ArithExpr

/-- A word of an expression. -/
inductive Lexeme where
  | number (value : Float)
  | name (text : String)
  | operator (op : Operator)
  | openParen
  | closeParen
  | comma
deriving DecidableEq

/-- A word and the offset of its first character. -/
abbrev Token := Located Lexeme

namespace Lexeme

/-- How a word is shown in a message. -/
def text : Lexeme → String
  | .number value => numberText value
  | .name text => text
  | .operator op => op.symbol.toString
  | .openParen => "("
  | .closeParen => ")"
  | .comma => ","

/-- How a word or the end of the input is shown in a message. -/
def textOrEnd : Option Lexeme → String
  | some lexeme => lexeme.text
  | none => endOfInputText

/-- The operator that a word stands for. -/
def operator? : Lexeme → Option Operator
  | .operator op => some op
  | _ => none

/-- The sign that a word stands for. -/
def sign? (lexeme : Lexeme) : Option Sign :=
  lexeme.operator?.bind Operator.sign?

/-- The word that a single character stands for. -/
def ofSymbol? : Char → Option Lexeme
  | '+' => some (.operator .add)
  | '-' => some (.operator .subtract)
  | '*' => some (.operator .multiply)
  | '/' => some (.operator .divide)
  | '^' => some (.operator .power)
  | '(' => some .openParen
  | ')' => some .closeParen
  | ',' => some .comma
  | _ => none

end Lexeme
end ArithExpr
