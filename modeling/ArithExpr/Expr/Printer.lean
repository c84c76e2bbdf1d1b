import ArithExpr.Decimal.Display
import ArithExpr.Expr.Basic

/-!
# The text of an expression

An expression is written with parentheses around every operator, so that its text shows the shape
of the tree: `(2 + (3 * 4))`, `(-x)`, `max(1, 2)`.
-/

namespace ArithExpr.Expr

mutual

/-- The text of an expression in front of a text that follows it. -/
def write : Expr → List Char → List Char
  | .number value _, rest => (numberText value).toList ++ rest
  | .unary sign operand _, rest => '(' :: sign.symbol :: operand.write (')' :: rest)
  | .binary op left right _, rest =>
    '(' :: left.write (' ' :: op.symbol :: ' ' :: right.write (')' :: rest))
  | .call name args _, rest => name.toList ++ '(' :: writeArgs args (')' :: rest)

/-- The texts of the arguments of a call, separated by commas, in front of a text that follows
them. -/
def writeArgs : List Expr → List Char → List Char
  | [], rest => rest
  | arg :: args, rest => arg.write (writeMoreArgs args rest)

/-- The texts of further arguments, each behind a comma, in front of a text that follows them. -/
def writeMoreArgs : List Expr → List Char → List Char
  | [], rest => rest
  | arg :: args, rest => ',' :: ' ' :: arg.write (writeMoreArgs args rest)

end

/-- The text of an expression. -/
def text (expr : Expr) : String :=
  String.ofList (expr.write [])

end ArithExpr.Expr
