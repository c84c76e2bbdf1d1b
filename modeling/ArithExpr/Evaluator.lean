import ArithExpr.Expr.Eval
import ArithExpr.Expr.Parser.Rules
import ArithExpr.Function.Standard
import ArithExpr.Program.Compile

/-!
# Evaluating a text

An evaluator reads a text with the functions of a context and within limits, and evaluates the tree
or turns it into a program.
-/

namespace ArithExpr

/-- What an evaluator spends at most. -/
structure Limits where
  /-- The number of levels that an expression may have. -/
  maxDepth : Nat
  /-- The number of programs that a session remembers. -/
  cacheSize : Nat
deriving DecidableEq, Repr

namespace Limits

/-- The limits where none are given. -/
def standard : Limits :=
  ⟨128, 128⟩

end Limits

/-- A context and the limits within which its functions are used. -/
structure Evaluator where
  /-- The functions that may be called. -/
  context : Context
  /-- What is spent at most. -/
  limits : Limits

namespace Evaluator

/-- The evaluator with the standard functions and limits. -/
def standard : Evaluator :=
  ⟨Standard.context, Limits.standard⟩

/-- The expression that a text stands for. -/
def parse (evaluator : Evaluator) (text : String) : Except Error Expr :=
  Expr.parse evaluator.context evaluator.limits.maxDepth text

/-- The value of the expression that a text stands for. -/
def evaluate (evaluator : Evaluator) (text : String) : Except Error Float := do
  let expr ← evaluator.parse text
  (expr.eval evaluator.context).mapError (Located.map .eval)

/-- The values of several texts, in order. -/
def evaluateAll (evaluator : Evaluator) (texts : List String) : List (Except Error Float) :=
  texts.map evaluator.evaluate

/-- The program of the expression that a text stands for. -/
def compile (evaluator : Evaluator) (text : String) : Except Error Program := do
  let expr ← evaluator.parse text
  (expr.compile evaluator.context).mapError (Located.map .eval)

end Evaluator
end ArithExpr
