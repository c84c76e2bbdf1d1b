import ArithExpr.Error

/-!
# Functions

A function of an expression takes a list of numbers and answers with a number or refuses. It counts
its arguments itself; the number it is declared with is what an expression is checked against, and
the two may differ.
-/

namespace ArithExpr

/-- A function as it is known to a context. -/
structure Builtin where
  /-- The number of arguments that a call must have. -/
  arity : Nat
  /-- What the function does with its arguments. -/
  run : List Float → Except FunctionFault Float

namespace Builtin

/-- A function without arguments. -/
def constant (value : Float) : Builtin where
  arity := 0
  run
    | [] => .ok value
    | args => .error (.arity 0 args.length)

/-- A function of one number that refuses the numbers outside its domain. -/
def guarded (inDomain : Float → Bool) (reason : String) (f : Float → Float) : Builtin where
  arity := 1
  run
    | [x] => if inDomain x then .ok (f x) else .error (.domain reason)
    | args => .error (.arity 1 args.length)

/-- A function of one number. -/
def unary (f : Float → Float) : Builtin where
  arity := 1
  run
    | [x] => .ok (f x)
    | args => .error (.arity 1 args.length)

/-- A function of two numbers. -/
def binary (f : Float → Float → Float) : Builtin where
  arity := 2
  run
    | [x, y] => .ok (f x y)
    | args => .error (.arity 2 args.length)

end Builtin
end ArithExpr
