import ArithExpr.Program.Compile
import ArithExpr.Proofs.Expr.Calls

/-!
# Programs answer like the expressions they come from

`Expr.code` is the code of an expression as a function of its own: the nodes in postorder, without
the signs that change nothing. Lowering an expression whose calls are right puts this code behind
the code made so far (`WellCalled.lower`), and running it in front of any code on any stack is
evaluating the expression and going on with its value on top (`WellCalled.runCode`).

The headline `compile_agrees_with_checkedEval` says that compiling and running an expression gives
the value or the error that evaluating it gives, and never runs out of operands.
-/

namespace ArithExpr

namespace Program

/-- Without code the stack is left as it is. -/
@[simp]
lemma runCode_nil (stack : List Float) : runCode [] stack = .ok stack := rfl

/-- Code runs as its first instruction and then as the others. -/
@[simp]
lemma runCode_cons (instruction : Instruction) (code : List Instruction) (stack : List Float) :
    runCode (instruction :: code) stack = (instruction.run stack >>= runCode code) := rfl

end Program

/-- Of the operators only division has no value, and only for a divisor that equals zero. -/
lemma Operator.apply_eq_error_iff {op : Operator} {x y : Float} {fault} :
    op.apply x y = .error fault ↔ op = .divide ∧ (y == 0.0) = true ∧ fault = .divisionByZero := by
  cases op with
  | divide =>
    rw [apply]
    split
    next zero => simp [zero, eq_comm]
    next other => simp [other]
  | _ => simp [apply]

/-- Arguments on a stack, the last one on top, are what is taken off it. -/
lemma Instruction.arguments_of_reverse {α : Type} {args : List α} {count}
    (length : count = args.length) (stack : List α) :
    count ≤ (args.reverse ++ stack).length ∧
      ((args.reverse ++ stack).take count).reverse = args ∧
      (args.reverse ++ stack).drop count = stack := by
  have same : args.reverse.length = count := by rw [List.length_reverse, length]
  refine ⟨?_, ?_, List.drop_left' same⟩
  · rw [List.length_append, same]
    exact Nat.le_add_right _ _
  · rw [List.take_left' same, List.reverse_reverse]

/-- A call takes its arguments off the stack, the last one from the top. -/
lemma Instruction.run_call {name builtin position values} (stack : List Float)
    (arity : builtin.arity = values.length) :
    run ⟨.call name builtin, position⟩ (values.reverse ++ stack) =
      ((builtin.run values).mapError fun fault => ⟨.ofFunction name fault, position⟩) >>=
        fun value => .ok (value :: stack) := by
  obtain ⟨enough, taken, below⟩ := arguments_of_reverse arity stack
  simp only [run, if_pos enough, taken, below]

namespace Expr

mutual

/-- The code of an expression. -/
def code (context : Context) : Expr → List Instruction
  | .number value position => [⟨.push value, position⟩]
  | .unary .negate operand position => operand.code context ++ [⟨.negate, position⟩]
  | .unary .plus operand _ => operand.code context
  | .binary op left right position =>
    left.code context ++ right.code context ++ [⟨.binary op, position⟩]
  | .call name args position =>
    codeAll context args ++
      ((context.find? name).map fun builtin => ⟨.call name builtin, position⟩).toList

/-- The code of several expressions, one after the other. -/
def codeAll (context : Context) : List Expr → List Instruction
  | [] => []
  | arg :: args => arg.code context ++ codeAll context args

end

/-- The code of a call is that of its arguments and the call itself behind it. -/
lemma code_call {context name builtin} (found : context.find? name = some builtin)
    (args : List Expr) (position : Nat) :
    (Expr.call name args position).code context =
      codeAll context args ++ [⟨.call name builtin, position⟩] := by
  simp [code, found]

/-- Lowering several expressions puts their code behind what came before if it does so for each. -/
lemma lowerAll_eq {context args}
    (each : ∀ arg ∈ args, ∀ before : List Instruction,
      lower context arg before.toArray = .ok (before ++ arg.code context).toArray)
    (before : List Instruction) :
    lowerAll context args before.toArray = .ok (before ++ codeAll context args).toArray := by
  induction args generalizing before with
  | nil => rw [lowerAll, codeAll, List.append_nil]
  | cons arg args ih =>
    obtain ⟨first, others⟩ := List.forall_mem_cons.1 each
    rw [lowerAll, first, ok_bind, ih others, codeAll, List.append_assoc]

/-- Lowering an expression whose calls are right puts its code behind what came before. -/
lemma WellCalled.lower {context expr} (well : WellCalled context expr)
    (before : List Instruction) :
    expr.lower context before.toArray = .ok (before ++ expr.code context).toArray := by
  induction well generalizing before with
  | number => rw [Expr.lower, List.push_toArray, code]
  | @unary sign operand position _ ih =>
    rw [Expr.lower, ih, ok_bind]
    cases sign with
    | negate => rw [List.push_toArray, code, List.append_assoc]
    | plus => rw [code]
  | @binary op left right position _ _ ihLeft ihRight =>
    rw [Expr.lower, ihLeft, ok_bind, ihRight, ok_bind, List.push_toArray, code, List.append_assoc,
      List.append_assoc, List.append_assoc]
  | @call name args builtin position found _ _ ih =>
    simp only [Expr.lower, found]
    rw [lowerAll_eq ih, ok_bind, List.push_toArray, code_call found, List.append_assoc]

/-- An expression whose calls are right compiles to its code. -/
lemma WellCalled.compile {context expr} (well : WellCalled context expr) :
    expr.compile context = .ok (.ofCode (expr.code context)) := by
  rw [Expr.compile, well.check, ok_bind, well.lower [], ok_bind, List.nil_append]

/-- The calls of an expression that compiles are right. -/
lemma WellCalled.of_compile {context expr program}
    (ok : Expr.compile context expr = .ok program) : WellCalled context expr := by
  rw [Expr.compile, bind_eq_ok_iff] at ok
  obtain ⟨_, checked, -⟩ := ok
  exact .of_check checked

/-- Running the code of several expressions leaves their values on the stack, the last one on top,
if the code of each leaves its value there. -/
lemma runCode_codeAll {context args}
    (each : ∀ arg ∈ args, ∀ next stack, Program.runCode (arg.code context ++ next) stack =
      (arg.eval context >>= fun value => Program.runCode next (value :: stack)))
    (next : List Instruction) (stack : List Float) :
    Program.runCode (codeAll context args ++ next) stack =
      (evalAll context args >>= fun values => Program.runCode next (values.reverse ++ stack)) := by
  induction args generalizing stack with
  | nil => rfl
  | cons arg args ih =>
    obtain ⟨first, others⟩ := List.forall_mem_cons.1 each
    rw [codeAll, List.append_assoc, first, evalAll]
    cases arg.eval context with
    | error error => rfl
    | ok value =>
      rw [ok_bind, ok_bind, ih others]
      cases evalAll context args with
      | error error => rfl
      | ok values => simp

/-- Running the code of an expression in front of other code is evaluating the expression and going
on with its value on top of the stack. -/
lemma WellCalled.runCode {context expr} (well : WellCalled context expr)
    (next : List Instruction) (stack : List Float) :
    Program.runCode (expr.code context ++ next) stack =
      (expr.eval context >>= fun value => Program.runCode next (value :: stack)) := by
  induction well generalizing next stack with
  | number => rfl
  | @unary sign operand position _ ih =>
    cases sign with
    | negate =>
      rw [code, List.append_assoc, ih, eval]
      cases operand.eval context <;> rfl
    | plus =>
      rw [code, ih, eval]
      cases operand.eval context <;> rfl
  | @binary op left right position _ _ ihLeft ihRight =>
    rw [code, List.append_assoc, List.append_assoc, ihLeft, eval]
    cases left.eval context with
    | error error => rfl
    | ok x =>
      rw [ok_bind, ok_bind, ihRight]
      cases right.eval context with
      | error error => rfl
      | ok y =>
        -- the right operand is on top, as the instruction expects it
        simp only [ok_bind, List.singleton_append, Program.runCode_cons, Instruction.run]
        cases op.apply x y <;> rfl
  | @call name args builtin position found arity _ ih =>
    rw [code_call found, List.append_assoc, runCode_codeAll ih]
    simp only [eval, found]
    cases evaluated : evalAll context args with
    | error error => rfl
    | ok values =>
      have length := length_evalAll evaluated
      rw [ok_bind, ok_bind, List.singleton_append, Program.runCode_cons,
        Instruction.run_call stack (arity.trans length.symm)]
      cases builtin.run values <;> rfl

/-- A compiled expression gives the value or the error of the expression. -/
lemma WellCalled.run {context expr} (well : WellCalled context expr) :
    (Program.ofCode (expr.code context)).run = expr.eval context := by
  have whole := well.runCode [] []
  rw [List.append_nil] at whole
  rw [Program.run, Program.ofCode, whole]
  cases expr.eval context <;> rfl

/-- The error of a list is that of one of its expressions. -/
lemma evalAll_eq_error {context args error} (fails : evalAll context args = .error error) :
    ∃ arg ∈ args, eval context arg = .error error := by
  induction args with
  | nil => cases fails
  | cons arg args ih =>
    rw [evalAll, bind_eq_error_iff] at fails
    obtain first | ⟨value, -, fails⟩ := fails
    · exact ⟨arg, List.mem_cons_self, first⟩
    rw [bind_eq_error_iff] at fails
    obtain others | ⟨values, -, fails⟩ := fails
    · obtain ⟨found, mem, same⟩ := ih others
      exact ⟨found, List.mem_cons_of_mem _ mem, same⟩
    · cases fails

/-- No expression is evaluated to a lack of operands. -/
lemma eval_ne_stackUnderflow (context : Context) (expr : Expr) (position : Nat) :
    expr.eval context ≠ .error ⟨.stackUnderflow, position⟩ := by
  intro fails
  induction expr with
  | number => cases fails
  | unary sign operand _ ih =>
    rw [eval, bind_eq_error_iff] at fails
    obtain fails | ⟨value, -, fails⟩ := fails
    · exact ih fails
    · cases fails
  | binary op left right at_ ihLeft ihRight =>
    rw [eval, bind_eq_error_iff] at fails
    obtain fails | ⟨x, -, fails⟩ := fails
    · exact ihLeft fails
    rw [bind_eq_error_iff] at fails
    obtain fails | ⟨y, -, fails⟩ := fails
    · exact ihRight fails
    obtain ⟨fault, applied, same⟩ := mapError_eq_error_iff.1 fails
    obtain ⟨-, -, rfl⟩ := Operator.apply_eq_error_iff.1 applied
    cases same
  | call name args _ ih =>
    rw [eval] at fails
    cases found : context.find? name with
    | none => simp [found] at fails
    | some builtin =>
      simp only [found, bind_eq_error_iff] at fails
      obtain fails | ⟨values, -, fails⟩ := fails
      · obtain ⟨arg, mem, fails⟩ := evalAll_eq_error fails
        exact ih arg mem fails
      obtain ⟨fault, -, same⟩ := mapError_eq_error_iff.1 fails
      cases fault <;> cases same

/-- An expression that does not compile is not evaluated and gives the same error, one that compiles
gives the answer of its program, and no program runs out of operands. -/
theorem compile_agrees_with_checkedEval (context : Context) (expr : Expr) :
    (∀ error, expr.compile context = .error error → expr.checkedEval context = .error error) ∧
    (∀ program, expr.compile context = .ok program →
      program.run = expr.checkedEval context ∧
      ∀ position, program.run ≠ .error ⟨.stackUnderflow, position⟩) := by
  cases checked : expr.check context with
  | error found =>
    rw [compile, checkedEval, checked]
    refine ⟨fun error same => ?_, nofun⟩
    cases same
    rfl
  | ok done =>
    have well := WellCalled.of_check checked
    rw [well.compile, checkedEval, checked, ok_bind]
    refine ⟨nofun, fun program same => ?_⟩
    cases same
    rw [well.run]
    exact ⟨rfl, eval_ne_stackUnderflow context expr⟩

/-- A function that is declared with two arguments and takes one is called by the program and fails
there as in the expression. -/
theorem compile_agrees_on_wrong_declaration :
    let context := Context.empty.register "half" ⟨2, (Builtin.unary fun x => x / 2).run⟩
    let expr := Expr.call "half" [.number 1 5, .number 2 8] 0
    ∃ program, expr.compile context = .ok program ∧
      program.run = .error ⟨.wrongArity "half" 1 2, 0⟩ := by
  intro context expr
  have found : context.find? "half" = some ⟨2, (Builtin.unary fun x => x / 2).run⟩ := by
    simp [context, Context.find?_register]
  have well : WellCalled context expr := by
    refine .call found rfl fun arg mem => ?_
    obtain rfl | rfl : arg = .number 1 5 ∨ arg = .number 2 8 := by simpa using mem
    · exact .number
    · exact .number
  have agrees := (compile_agrees_with_checkedEval context expr).2 _ well.compile
  refine ⟨_, well.compile, agrees.1.trans ?_⟩
  rw [checkedEval, well.check, ok_bind]
  simp [expr, eval, evalAll, found, Builtin.unary, EvalFault.ofFunction]

end Expr
end ArithExpr
