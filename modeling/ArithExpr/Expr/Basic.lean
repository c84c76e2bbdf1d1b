import ArithExpr.Operator

/-!
# Expressions

The tree of an arithmetic expression. Every node carries the offset of the token that defines it: a
literal's own, the operator's, or the name's of a call. Parentheses leave no node.
-/

namespace ArithExpr

/-- An arithmetic expression. -/
inductive Expr where
  | number (value : Float) (position : Nat)
  | unary (sign : Sign) (operand : Expr) (position : Nat)
  | binary (op : Operator) (left right : Expr) (position : Nat)
  | call (name : String) (args : List Expr) (position : Nat)

namespace Expr

/-- The offset of the token that defines the root. -/
def position : Expr → Nat
  | .number _ position => position
  | .unary _ _ position => position
  | .binary _ _ _ position => position
  | .call _ _ position => position

mutual

/-- The number of nodes on the longest path from the root to a leaf. -/
def depth : Expr → Nat
  | .number _ _ => 1
  | .unary _ operand _ => 1 + operand.depth
  | .binary _ left right _ => 1 + max left.depth right.depth
  | .call _ args _ => 1 + maxDepth args

/-- The largest depth in a list of expressions, zero if there is none. -/
def maxDepth : List Expr → Nat
  | [] => 0
  | arg :: args => max arg.depth (maxDepth args)

end

end Expr
end ArithExpr
