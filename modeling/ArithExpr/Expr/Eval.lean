import ArithExpr.Expr.Check

/-!
# The value of an expression

Operands are evaluated from left to right before the operator or function is applied to them, and
the first error ends the evaluation. A name without a function is an error before any argument is
looked at.
-/

namespace ArithExpr.Expr

mutual

/-- The value of an expression. -/
def eval (context : Context) : Expr → Except EvalError Float
  | .number value _ => .ok value
  | .unary sign operand _ => do
    let value ← operand.eval context
    .ok (sign.apply value)
  | .binary op left right position => do
    let x ← left.eval context
    let y ← right.eval context
    (op.apply x y).mapError fun fault => ⟨fault, position⟩
  | .call name args position =>
    match context.find? name with
    | none => .error ⟨.unknownFunction name, position⟩
    | some builtin => do
      let values ← evalAll context args
      (builtin.run values).mapError fun fault => ⟨.ofFunction name fault, position⟩

/-- The values of the expressions of a list. -/
def evalAll (context : Context) : List Expr → Except EvalError (List Float)
  | [] => .ok []
  | arg :: args => do
    let value ← arg.eval context
    let values ← evalAll context args
    .ok (value :: values)

end

/-- The value of an expression whose calls are checked first. -/
def checkedEval (context : Context) (expr : Expr) : Except EvalError Float := do
  expr.check context
  expr.eval context

end ArithExpr.Expr
