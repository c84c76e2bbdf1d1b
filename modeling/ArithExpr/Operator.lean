import ArithExpr.Error

/-!
# Operators

The binary operators and the two signs, each with its character and with what it does to numbers.
Division is the one operation that can fail.
-/

namespace ArithExpr

/-- The binary operators. -/
inductive Operator where
  | add
  | subtract
  | multiply
  | divide
  | power
deriving DecidableEq, Repr

/-- The unary operators. -/
inductive Sign where
  | negate
  | plus
deriving DecidableEq, Repr

namespace Operator

/-- The character that stands for an operator. -/
def symbol : Operator → Char
  | .add => '+'
  | .subtract => '-'
  | .multiply => '*'
  | .divide => '/'
  | .power => '^'

/-- The sign written with the same character. -/
def sign? : Operator → Option Sign
  | .add => some .plus
  | .subtract => some .negate
  | _ => none

/-- Applies an operator to two numbers. A divisor that equals zero, of either sign, is refused. -/
def apply (op : Operator) (left right : Float) : Except EvalFault Float :=
  match op with
  | .add => .ok (left + right)
  | .subtract => .ok (left - right)
  | .multiply => .ok (left * right)
  | .divide => if right == 0.0 then .error .divisionByZero else .ok (left / right)
  | .power => .ok (left.pow right)

end Operator

namespace Sign

/-- The character that stands for a sign. -/
def symbol : Sign → Char
  | .negate => '-'
  | .plus => '+'

/-- Applies a sign to a number. -/
def apply : Sign → Float → Float
  | .negate, x => -x
  | .plus, x => x

end Sign
end ArithExpr
