import ArithExpr.Function.Context
import ArithExpr.Function.Logarithm
import ArithExpr.Function.Numeric

/-!
# The standard functions

The functions that every expression may call unless its context says otherwise.
-/

namespace ArithExpr.Standard

/-- The constant π. -/
def pi : Builtin := .constant 3.141592653589793

/-- The base of the natural logarithm. -/
def e : Builtin := .constant 2.718281828459045

/-- The square root, of numbers that are not below zero. -/
def sqrt : Builtin :=
  .guarded (fun x => !(x < 0.0)) "argument must be non-negative" Float.sqrt

/-- A logarithm, of numbers that are not zero or below. -/
def logarithm (f : Float → Float) : Builtin :=
  .guarded (fun x => !(x ≤ 0.0)) "argument must be positive" f

/-- An inverse of a trigonometric function whose values lie between -1 and 1. -/
def arc (f : Float → Float) : Builtin :=
  .guarded (fun x => (-1.0 ≤ x && x ≤ 1.0) || x.isNaN)
    "argument must be within [-1, 1]" f

/-- The names of the standard functions and what they mean. -/
def functions : List (String × Builtin) := [
  ("pi", pi), ("e", e),
  ("sqrt", sqrt), ("cbrt", .unary Numeric.cubeRoot), ("pow", .binary Float.pow),
  ("exp", .unary Float.exp), ("ln", logarithm Float.log), ("log", logarithm Logarithm.decimal),
  ("abs", .unary Float.abs), ("floor", .unary Float.floor), ("ceil", .unary Float.ceil),
  ("round", .unary Float.round), ("min", .binary Numeric.smaller),
  ("max", .binary Numeric.larger), ("hypot", .binary Numeric.hypotenuse),
  ("sin", .unary Float.sin), ("cos", .unary Float.cos), ("tan", .unary Float.tan),
  ("asin", arc Float.asin), ("acos", arc Float.acos), ("atan", .unary Float.atan)
]

/-- The context with the standard functions. -/
def context : Context :=
  .ofList functions

end ArithExpr.Standard
