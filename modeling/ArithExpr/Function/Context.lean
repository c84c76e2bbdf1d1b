import ArithExpr.Function.Builtin
import Std.Data.TreeMap

/-!
# Contexts

A context gives names to functions. Main statements: a name that was just registered means the
function registered, and all other names mean what they meant before.
-/

namespace ArithExpr

/-- The functions that an expression may call, by name. -/
structure Context where
  /-- The functions in the order of their names. -/
  functions : Std.TreeMap String Builtin

namespace Context

/-- The context without functions. -/
def empty : Context :=
  ⟨∅⟩

/-- Gives a name to a function, instead of the one it named before. -/
def register (context : Context) (name : String) (builtin : Builtin) : Context :=
  ⟨context.functions.insert name builtin⟩

/-- The context with the functions of a list, a later one in place of an earlier one. -/
def ofList (functions : List (String × Builtin)) : Context :=
  functions.foldl (fun context entry => context.register entry.1 entry.2) empty

/-- The function that a name means. -/
def find? (context : Context) (name : String) : Option Builtin :=
  context.functions[name]?

/-- Whether a name means a function. -/
def contains (context : Context) (name : String) : Bool :=
  (context.find? name).isSome

/-- The number of arguments that a call of a name must have. -/
def arity? (context : Context) (name : String) : Option Nat :=
  (context.find? name).map Builtin.arity

/-- The names of all functions, in the order of their characters. -/
def names (context : Context) : List String :=
  context.functions.keys

/-- The empty context has no functions. -/
@[simp] theorem find?_empty (name : String) : empty.find? name = none := by
  simp [find?, empty]

/-- A registration decides what its own name stands for, and leaves the other names alone. -/
theorem find?_register (context : Context) (name other : String) (builtin : Builtin) :
    (context.register name builtin).find? other =
      if name = other then some builtin else context.find? other := by
  simp [find?, register, Std.TreeMap.getElem?_insert]

end Context
end ArithExpr
