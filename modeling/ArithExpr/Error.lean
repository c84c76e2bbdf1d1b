import ArithExpr.Located

/-!
# Errors

What can go wrong, by the stage that finds it, and the sentence that says it. An error is a fault
with the offset that it points at.
-/

namespace ArithExpr

/-- What makes a text fall apart before it is a list of tokens. -/
inductive LexFault where
  | unexpectedCharacter (found : Char)
  | malformedNumber (found : Char)
  | malformedExponent (found : Option Char)
deriving DecidableEq, Repr

/-- What makes a list of tokens no expression. -/
inductive ParseFault where
  | emptyExpression
  | unexpectedToken (text : String)
  | unexpectedEndOfInput
  | unmatchedParenthesis
  | trailingInput (text : String)
  | unknownFunction (name : String)
  | missingCallParenthesis (name : String)
  | wrongArity (name : String) (expected found : Nat)
  | nestingTooDeep (limit : Nat)
deriving DecidableEq, Repr

/-- What keeps an expression from having a value. -/
inductive EvalFault where
  | divisionByZero
  | domain (function reason : String)
  | unknownFunction (name : String)
  | wrongArity (name : String) (expected found : Nat)
  | stackUnderflow
deriving DecidableEq, Repr

/-- What a function can answer instead of a number. -/
inductive FunctionFault where
  | domain (reason : String)
  | arity (expected found : Nat)
deriving DecidableEq, Repr

/-- A fault of any stage. -/
inductive Fault where
  | lex (fault : LexFault)
  | parse (fault : ParseFault)
  | eval (fault : EvalFault)
deriving DecidableEq, Repr

/-- A fault of the split into tokens and where it shows. -/
abbrev LexError := Located LexFault

/-- A fault of an expression and the node that it belongs to. -/
abbrev EvalError := Located EvalFault

/-- A fault of any stage and where it shows. -/
abbrev Error := Located Fault

/-- How the end of the input is shown where a character or a word is expected. -/
def endOfInputText : String := "end of input"

/-- The sentence about a wrong number of arguments. -/
def wrongArityMessage (name : String) (expected found : Nat) : String :=
  s!"wrong arity: '{name}' takes {expected} argument(s), found {found}"

namespace LexFault

/-- The character that a fault is about, if the input did not end there. -/
def character : LexFault → Option Char
  | .unexpectedCharacter found => some found
  | .malformedNumber found => some found
  | .malformedExponent found => found

/-- The sentence that says what is wrong. -/
def message : LexFault → String
  | .unexpectedCharacter found => s!"unexpected character '{found}'"
  | .malformedNumber found => s!"malformed number: unexpected '{found}'"
  | .malformedExponent (some found) =>
    s!"malformed exponent: expected digit, found '{found}'"
  | .malformedExponent none =>
    "malformed exponent: expected digit, found " ++ endOfInputText

end LexFault

/-- The sentence that says what is wrong. -/
def ParseFault.message : ParseFault → String
  | .emptyExpression => "empty expression"
  | .unexpectedToken text => s!"unexpected token '{text}'"
  | .unexpectedEndOfInput => "unexpected end of input"
  | .unmatchedParenthesis => "unmatched parenthesis"
  | .trailingInput text => s!"unexpected trailing input '{text}'"
  | .unknownFunction name => s!"unknown function '{name}'"
  | .missingCallParenthesis name => s!"expected '(' after function name '{name}'"
  | .wrongArity name expected found => wrongArityMessage name expected found
  | .nestingTooDeep limit => s!"expression nested deeper than {limit} levels"

namespace EvalFault

/-- The sentence that says what is wrong. -/
def message : EvalFault → String
  | .divisionByZero => "division by zero"
  | .domain function reason => s!"domain error in '{function}': {reason}"
  | .unknownFunction name => s!"unknown function '{name}'"
  | .wrongArity name expected found => wrongArityMessage name expected found
  | .stackUnderflow => "stack underflow while executing compiled program"

/-- The fault of a function, as a fault of the expression that calls it by a name. -/
def ofFunction (name : String) : FunctionFault → EvalFault
  | .domain reason => .domain name reason
  | .arity expected found => .wrongArity name expected found

end EvalFault

/-- The sentence that says what is wrong. -/
def FunctionFault.message : FunctionFault → String
  | .domain reason => reason
  | .arity expected found => s!"expected {expected} argument(s), found {found}"

/-- The sentence that says what is wrong. -/
def Fault.message : Fault → String
  | .lex fault => fault.message
  | .parse fault => fault.message
  | .eval fault => fault.message

/-- The sentence that says what is wrong and where. -/
def Error.message (error : Error) : String :=
  s!"{error.value.message} at position {error.position}"

end ArithExpr
