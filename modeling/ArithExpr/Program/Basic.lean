import ArithExpr.Function.Context
import ArithExpr.Operator

/-!
# Programs for a stack of numbers

A program is a list of instructions. Each takes its operands off the top of a stack and puts its
result there; the function of a call is part of the instruction. A program that runs to its end
answers with the number on top.
-/

namespace ArithExpr

/-- What an instruction does to the stack. -/
inductive Action where
  | push (value : Float)
  | negate
  | binary (op : Operator)
  | call (name : String) (builtin : Builtin)

/-- An action and the offset of the token that it comes from. -/
abbrev Instruction := Located Action

namespace Instruction

/-- Carries out an instruction on a stack, its top first. -/
def run (instruction : Instruction) (stack : List Float) : Except EvalError (List Float) :=
  match instruction.value, stack with
  | .push value, stack => .ok (value :: stack)
  | .negate, value :: stack => .ok (Sign.negate.apply value :: stack)
  | .binary op, right :: left :: stack => do
    let value ← (op.apply left right).mapError fun fault => ⟨fault, instruction.position⟩
    .ok (value :: stack)
  | .call name builtin, stack =>
    if builtin.arity ≤ stack.length then do
      let args := (stack.take builtin.arity).reverse
      let value ← (builtin.run args).mapError fun fault =>
        ⟨.ofFunction name fault, instruction.position⟩
      .ok (value :: stack.drop builtin.arity)
    else .error ⟨.stackUnderflow, instruction.position⟩
  | _, _ => .error ⟨.stackUnderflow, instruction.position⟩

/-- The height of a stack of the given height behind an instruction. -/
def height (instruction : Instruction) (before : Nat) : Nat :=
  match instruction.value with
  | .push _ => before + 1
  | .negate => before
  | .binary _ => before - 1
  | .call _ builtin => before - builtin.arity + 1

end Instruction

/-- A list of instructions and the number of values that it has on the stack at most. -/
structure Program where
  /-- The instructions, in order. -/
  code : List Instruction
  /-- The largest height of the stack. -/
  maxStack : Nat

namespace Program

/-- The largest height that a stack of the given height reaches behind one of some instructions. -/
def maxHeight : List Instruction → Nat → Nat
  | [], _ => 0
  | instruction :: code, before =>
    max (instruction.height before) (maxHeight code (instruction.height before))

/-- The program of a list of instructions. -/
def ofCode (code : List Instruction) : Program :=
  ⟨code, maxHeight code 0⟩

/-- Carries out instructions one after the other. -/
def runCode (code : List Instruction) (stack : List Float) : Except EvalError (List Float) :=
  code.foldlM (fun stack instruction => instruction.run stack) stack

/-- The answer of a program: what it leaves on top of an empty stack. -/
def run (program : Program) : Except EvalError Float := do
  match ← runCode program.code [] with
  | value :: _ => .ok value
  | [] => .error ⟨.stackUnderflow, (program.code.getLast?.map Located.position).getD 0⟩

end Program
end ArithExpr
