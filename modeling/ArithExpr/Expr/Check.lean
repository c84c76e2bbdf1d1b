import ArithExpr.Expr.Basic
import ArithExpr.Function.Context

/-!
# Checking the calls of an expression

Every call must name a function of the context and have as many arguments as that function is
declared with. The outer call is looked at before the calls in its arguments, and those on the left
before those on the right.
-/

namespace ArithExpr.Expr

mutual

/-- Finds the first call that the context does not allow. -/
def check (context : Context) : Expr → Except EvalError Unit
  | .number _ _ => .ok ()
  | .unary _ operand _ => operand.check context
  | .binary _ left right _ => do
    left.check context
    right.check context
  | .call name args position =>
    match context.arity? name with
    | none => .error ⟨.unknownFunction name, position⟩
    | some arity =>
      if arity = args.length then checkAll context args
      else .error ⟨.wrongArity name arity args.length, position⟩

/-- Checks the expressions of a list from left to right. -/
def checkAll (context : Context) : List Expr → Except EvalError Unit
  | [] => .ok ()
  | arg :: args => do
    arg.check context
    checkAll context args

end

end ArithExpr.Expr
