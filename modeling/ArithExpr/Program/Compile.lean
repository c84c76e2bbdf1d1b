import ArithExpr.Expr.Check
import ArithExpr.Program.Basic

/-!
# From expressions to programs

The operands of an operator or call come before it, so the code of an expression is the list of its
nodes in postorder, without the signs that change nothing. Calls are checked before any code is
made.
-/

namespace ArithExpr

namespace Expr

mutual

/-- Puts the code of an expression behind the code made so far. -/
def lower (context : Context) :
    Expr → Array Instruction → Except EvalError (Array Instruction)
  | .number value position, code => .ok (code.push ⟨.push value, position⟩)
  | .unary sign operand position, code => do
    let code ← operand.lower context code
    match sign with
    | .negate => .ok (code.push ⟨.negate, position⟩)
    | .plus => .ok code
  | .binary op left right position, code => do
    let code ← left.lower context code
    let code ← right.lower context code
    .ok (code.push ⟨.binary op, position⟩)
  | .call name args position, code =>
    match context.find? name with
    | none => .error ⟨.unknownFunction name, position⟩
    | some builtin => do
      let code ← lowerAll context args code
      .ok (code.push ⟨.call name builtin, position⟩)

/-- Puts the code of the expressions of a list, one after the other, behind the code made so far. -/
def lowerAll (context : Context) :
    List Expr → Array Instruction → Except EvalError (Array Instruction)
  | [], code => .ok code
  | arg :: args, code => do
    let code ← arg.lower context code
    lowerAll context args code

end

/-- The program of an expression. -/
def compile (context : Context) (expr : Expr) : Except EvalError Program := do
  expr.check context
  let code ← expr.lower context #[]
  .ok (Program.ofCode code.toList)

end Expr
end ArithExpr
