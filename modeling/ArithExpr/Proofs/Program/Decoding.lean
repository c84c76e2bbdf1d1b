import ArithExpr.Proofs.Program.Lowering

/-!
# Programs can be turned back into expressions

Run on a stack of expressions instead of numbers, each instruction builds the node that it comes
from: `Program.decode`. Behind the code of an expression the expression itself is on top, without
the signs that change nothing (`WellCalled.decode`), whatever code follows.

The headline `decode_compile` says that this loses nothing else, so that two expressions have the
same code only if they are the same without these signs.
-/

namespace ArithExpr

/-- Builds the node that an instruction comes from, out of the expressions on top of a stack. -/
def Instruction.build (instruction : Instruction) (stack : List Expr) : Option (List Expr) :=
  match instruction.value, stack with
  | .push value, stack => some (.number value instruction.position :: stack)
  | .negate, operand :: stack => some (.unary .negate operand instruction.position :: stack)
  | .binary op, right :: left :: stack =>
    some (.binary op left right instruction.position :: stack)
  | .call name builtin, stack =>
    if builtin.arity ≤ stack.length then
      some (.call name (stack.take builtin.arity).reverse instruction.position ::
        stack.drop builtin.arity)
    else none
  | _, _ => none

/-- A call takes its arguments off the stack, the last one from the top. -/
lemma Instruction.build_call {name builtin position} {args : List Expr}
    (arity : builtin.arity = args.length) (stack : List Expr) :
    build ⟨.call name builtin, position⟩ (args.reverse ++ stack) =
      some (.call name args position :: stack) := by
  obtain ⟨enough, taken, below⟩ := arguments_of_reverse arity stack
  simp only [build, if_pos enough, taken, below]

namespace Program

/-- Builds the nodes of some instructions one after the other. -/
def decode (code : List Instruction) (stack : List Expr) : Option (List Expr) :=
  code.foldlM (fun stack instruction => instruction.build stack) stack

/-- Without code the stack is left as it is. -/
lemma decode_nil (stack : List Expr) : decode [] stack = some stack := rfl

/-- The first instruction builds on the stack and the others on what it leaves. -/
lemma decode_cons {instruction : Instruction} {stack stack' : List Expr}
    (built : instruction.build stack = some stack') (code : List Instruction) :
    decode (instruction :: code) stack = decode code stack' := by
  show (instruction.build stack >>= decode code) = _
  rw [built]
  rfl

end Program

namespace Expr

mutual

/-- An expression without the signs that change nothing. -/
def withoutPlus : Expr → Expr
  | .number value position => .number value position
  | .unary .negate operand position => .unary .negate operand.withoutPlus position
  | .unary .plus operand _ => operand.withoutPlus
  | .binary op left right position => .binary op left.withoutPlus right.withoutPlus position
  | .call name args position => .call name (withoutPlusAll args) position

/-- The expressions of a list without the signs that change nothing. -/
def withoutPlusAll : List Expr → List Expr
  | [] => []
  | arg :: args => arg.withoutPlus :: withoutPlusAll args

end

mutual

/-- The nodes of an expression, each as the expression that it is the root of, and behind those that
it applies to. -/
def postorder : Expr → List Expr
  | .number value position => [.number value position]
  | .unary sign operand position => operand.postorder ++ [.unary sign operand position]
  | .binary op left right position =>
    left.postorder ++ right.postorder ++ [.binary op left right position]
  | .call name args position => postorderAll args ++ [.call name args position]

/-- The nodes of several expressions, one expression after the other. -/
def postorderAll : List Expr → List Expr
  | [] => []
  | arg :: args => arg.postorder ++ postorderAll args

end

/-- Whether a node is a sign that changes nothing. -/
def isPlus : Expr → Bool
  | .unary .plus _ _ => true
  | _ => false

/-- No argument gets lost with the signs. -/
lemma length_withoutPlusAll (args : List Expr) : (withoutPlusAll args).length = args.length := by
  induction args with
  | nil => rfl
  | cons arg args ih => rw [withoutPlusAll, List.length_cons, ih, List.length_cons]

variable {context : Context} {expr : Expr} {args : List Expr}

/-- Decoding the code of several expressions puts them on the stack, the last one on top, if
decoding the code of each puts it there. -/
lemma decode_codeAll
    (each : ∀ arg ∈ args, ∀ next stack, Program.decode (arg.code context ++ next) stack =
      Program.decode next (arg.withoutPlus :: stack))
    (next : List Instruction) (stack : List Expr) :
    Program.decode (codeAll context args ++ next) stack =
      Program.decode next ((withoutPlusAll args).reverse ++ stack) := by
  induction args generalizing stack with
  | nil => rfl
  | cons arg args ih =>
    obtain ⟨first, others⟩ := List.forall_mem_cons.1 each
    rw [codeAll, List.append_assoc, first, ih others, withoutPlusAll, List.reverse_cons,
      List.append_assoc, List.singleton_append]

/-- Decoding the code of an expression in front of other code puts the expression on top of the
stack and goes on with the other code. -/
lemma WellCalled.decode (well : WellCalled context expr) (next : List Instruction)
    (stack : List Expr) :
    Program.decode (expr.code context ++ next) stack =
      Program.decode next (expr.withoutPlus :: stack) := by
  induction well generalizing next stack with
  | number => exact Program.decode_cons rfl next
  | @unary sign operand position _ ih =>
    cases sign with
    | negate =>
      rw [code, List.append_assoc, ih, withoutPlus]
      exact Program.decode_cons rfl next
    | plus =>
      rw [code, withoutPlus]
      exact ih next stack
  | binary _ _ ihLeft ihRight =>
    rw [code, List.append_assoc, List.append_assoc, ihLeft, ihRight, withoutPlus]
    exact Program.decode_cons rfl next
  | @call name args builtin position found arity _ ih =>
    -- the call takes as many expressions off the stack as were put there for its arguments
    have length := arity.trans (length_withoutPlusAll args).symm
    rw [code_call found, List.append_assoc, decode_codeAll ih, withoutPlus]
    exact Program.decode_cons (Instruction.build_call length stack) next

/-- The code of an expression decodes to the expression. -/
lemma WellCalled.decode_code (well : WellCalled context expr) :
    Program.decode (expr.code context) [] = some [expr.withoutPlus] := by
  have whole := well.decode [] []
  rwa [List.append_nil, Program.decode_nil] at whole

/-- The code of a list is the same without plus signs if that of each expression is. -/
lemma codeAll_withoutPlusAll
    (each : ∀ arg ∈ args, arg.withoutPlus.code context = arg.code context) :
    codeAll context (withoutPlusAll args) = codeAll context args := by
  induction args with
  | nil => rfl
  | cons arg args ih =>
    obtain ⟨first, others⟩ := List.forall_mem_cons.1 each
    rw [withoutPlusAll, codeAll, first, ih others, codeAll]

/-- The signs that change nothing leave no instruction. -/
lemma code_withoutPlus (context : Context) (expr : Expr) :
    expr.withoutPlus.code context = expr.code context := by
  induction expr with
  | number => rfl
  | unary sign operand position ih =>
    cases sign with
    | negate => rw [withoutPlus, code, ih, code]
    | plus => rw [withoutPlus, ih, code]
  | binary op left right position ihLeft ihRight =>
    rw [withoutPlus, code, ihLeft, ihRight, code]
  | call name args position ih =>
    rw [withoutPlus, code, codeAll_withoutPlusAll ih, code]

/-- The code of a list has an instruction for each node that is no plus sign if that of each
expression does. -/
lemma length_codeAll
    (each : ∀ arg ∈ args, (arg.code context).length = arg.postorder.countP (!·.isPlus)) :
    (codeAll context args).length = (postorderAll args).countP (!·.isPlus) := by
  induction args with
  | nil => rfl
  | cons arg args ih =>
    obtain ⟨first, others⟩ := List.forall_mem_cons.1 each
    rw [codeAll, List.length_append, first, ih others, postorderAll, List.countP_append]

/-- There is an instruction for each node but for the signs that change nothing. -/
lemma WellCalled.length_code (well : WellCalled context expr) :
    (expr.code context).length = expr.postorder.countP (!·.isPlus) := by
  induction well with
  | number => rfl
  | @unary sign operand position _ ih =>
    cases sign with
    | negate =>
      rw [code, List.length_append, ih, postorder, List.countP_append]
      rfl
    | plus =>
      rw [code, ih, postorder, List.countP_append]
      rfl
  | binary _ _ ihLeft ihRight =>
    rw [code, List.length_append, List.length_append, ihLeft, ihRight, postorder,
      List.countP_append, List.countP_append]
    rfl
  | call found _ _ ih =>
    rw [code_call found, List.length_append, length_codeAll ih, postorder, List.countP_append]
    rfl

/-- Two expressions have the same code if and only if they are the same without the signs that
change nothing. -/
lemma WellCalled.code_eq_iff {expr' : Expr} (well : WellCalled context expr)
    (well' : WellCalled context expr') :
    expr.code context = expr'.code context ↔ expr.withoutPlus = expr'.withoutPlus := by
  constructor
  · intro same
    have decoded := well.decode_code
    rw [same, well'.decode_code] at decoded
    exact (List.cons.inj (Option.some.inj decoded)).1.symm
  · intro same
    rw [← code_withoutPlus context expr, same, code_withoutPlus]

/-- The program of an expression whose calls are right decodes to the expression without the signs
that change nothing, and has an instruction for every other node. So two such expressions have
programs with the same code if and only if they differ in these signs at most. -/
theorem decode_compile (context : Context) :
    (∀ expr : Expr, expr.check context = .ok () →
      ∃ program, expr.compile context = .ok program ∧
        Program.decode program.code [] = some [expr.withoutPlus] ∧
        program.code.length = expr.postorder.countP (!·.isPlus)) ∧
    (∀ expr expr' : Expr, expr.check context = .ok () → expr'.check context = .ok () →
      ∃ program program', expr.compile context = .ok program ∧
        expr'.compile context = .ok program' ∧
        (program.code = program'.code ↔ expr.withoutPlus = expr'.withoutPlus)) := by
  refine ⟨fun expr checked => ?_, fun expr expr' checked checked' => ?_⟩
  · have well := WellCalled.of_check checked
    exact ⟨_, well.compile, well.decode_code, well.length_code⟩
  · have well := WellCalled.of_check checked
    have well' := WellCalled.of_check checked'
    exact ⟨_, _, well.compile, well'.compile, well.code_eq_iff well'⟩

end Expr
end ArithExpr
