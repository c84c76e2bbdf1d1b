import ArithExpr.Function.Context
import ArithExpr.Token.Lexer

/-!
# What the rules of the parser share

A parser looks at the first of the tokens ahead. Stepping past a token makes the next one the first
one ahead, and fails where the text has an error in its place, even before the token that was
stepped past is found to be wrong.
-/

namespace ArithExpr

/-- Something read off the front of fewer than `count` tokens ahead, and the tokens behind it. -/
structure Parsed (α : Type) (count : Nat) where
  /-- What was read. -/
  value : α
  /-- The tokens ahead now. -/
  rest : List Token
  shorter : rest.length < count

/-- The two kinds of runs of operands with operators between them. -/
inductive Level where
  | sum
  | product
deriving DecidableEq, Repr

/-- The operator that a word stands for, if it may stand in a run of a level. -/
def Level.operator? : Level → Lexeme → Option Operator
  | .sum, .operator .add => some .add
  | .sum, .operator .subtract => some .subtract
  | .product, .operator .multiply => some .multiply
  | .product, .operator .divide => some .divide
  | _, _ => none

/-- What stays the same while a text is parsed. -/
structure Parser where
  /-- The functions that may be called. -/
  context : Context
  /-- The number of levels allowed. -/
  limit : Nat
  /-- How the tokens of the text end. -/
  ending : Ending

namespace Parser

/-- The answer that something is wrong at a place. -/
def fail {α : Type} (fault : ParseFault) (position : Nat) : Except Error α :=
  .error ⟨.parse fault, position⟩

/-- The offset of the first token ahead, or of the end of the input. -/
def place (p : Parser) : List Token → Nat
  | token :: _ => token.position
  | [] => p.ending.position

/-- Makes sure that the first token ahead is one or that the input ends there. -/
def reach (p : Parser) (tokens : List Token) : Except Error Unit :=
  match tokens, p.ending with
  | [], .fault error => .error (error.map .lex)
  | _, _ => .ok ()

/-- The answer that there is no level left for what starts at the first token ahead. -/
def tooDeep {α : Type} (p : Parser) (tokens : List Token) : Except Error α :=
  fail (.nestingTooDeep p.limit) (p.place tokens)

/-- Reads the parenthesis that closes the one at the offset `opened`. -/
def closing (p : Parser) (opened : Nat) :
    (tokens : List Token) → Except Error (Parsed Unit tokens.length)
  | [] => fail .unmatchedParenthesis opened
  | ⟨.closeParen, _⟩ :: rest => do
    p.reach rest
    .ok ⟨(), rest, Nat.lt_succ_self _⟩
  | token :: _ => fail (.unexpectedToken token.value.text) token.position

end Parser
end ArithExpr
