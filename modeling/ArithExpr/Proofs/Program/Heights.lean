import ArithExpr.Proofs.Program.Lowering

/-!
# How high a stack grows

What an instruction does to the height of a stack is known before it is run, and so is the height
behind any part of a program: `Program.heightAfter`. A step that succeeds keeps to it
(`Instruction.length_of_run`), and with it a whole run (`Program.length_of_runCode`).

The number of values that an expression has on the stack at most is read off its tree: `Expr.need`.
The headline `compile_need` says that this is the height announced by the program of an expression,
that no run of the program grows higher or lacks an operand, and that every run with a value grows
as high.
-/

namespace ArithExpr

namespace Instruction

/-- The number of values that an instruction takes off the stack. -/
def operands (instruction : Instruction) : Nat :=
  match instruction.value with
  | .push _ => 0
  | .negate => 1
  | .binary _ => 2
  | .call _ builtin => builtin.arity

/-- An instruction that succeeds found its operands, and left the stack as high as announced. -/
lemma length_of_run {instruction : Instruction} {stack stack' : List Float}
    (ok : instruction.run stack = .ok stack') :
    instruction.operands ≤ stack.length ∧ stack'.length = instruction.height stack.length := by
  obtain ⟨action, position⟩ := instruction
  cases action with
  | push value =>
    cases ok
    exact ⟨Nat.zero_le _, rfl⟩
  | negate =>
    cases stack with
    | nil => cases ok
    | cons value stack =>
      cases ok
      exact ⟨Nat.le_add_left 1 _, rfl⟩
  | binary op =>
    match stack with
    | [] => cases ok
    | [_] => cases ok
    | right :: left :: stack =>
      simp only [run, bind_eq_ok_iff] at ok
      obtain ⟨value, -, same⟩ := ok
      cases same
      exact ⟨Nat.le_add_left 2 _, rfl⟩
  | call name builtin =>
    simp only [run] at ok
    split at ok
    next enough =>
      rw [bind_eq_ok_iff] at ok
      obtain ⟨value, -, same⟩ := ok
      cases same
      refine ⟨enough, ?_⟩
      rw [List.length_cons, List.length_drop]
      rfl
    next => cases ok

end Instruction

namespace Program
variable {code done ahead next : List Instruction} {before : Nat}

/-- The height that a stack of the given height has behind some instructions. -/
def heightAfter (code : List Instruction) (before : Nat) : Nat :=
  code.foldl (fun height instruction => instruction.height height) before

/-- The height behind some code is that behind its first instruction and then behind the others. -/
lemma heightAfter_cons (instruction : Instruction) (code : List Instruction) (before : Nat) :
    heightAfter (instruction :: code) before = heightAfter code (instruction.height before) := rfl

/-- A run that succeeds leaves the stack as high as announced. -/
lemma length_of_runCode {stack stack' : List Float} (ok : runCode code stack = .ok stack') :
    stack'.length = heightAfter code stack.length := by
  induction code generalizing stack with
  | nil =>
    cases ok
    rfl
  | cons instruction code ih =>
    rw [runCode_cons, bind_eq_ok_iff] at ok
    obtain ⟨middle, okFirst, okRest⟩ := ok
    rw [heightAfter_cons, ← (Instruction.length_of_run okFirst).2]
    exact ih okRest

/-- Code in two parts runs as the first part and then as the second one. -/
lemma runCode_append (stack : List Float) :
    runCode (done ++ ahead) stack = (runCode done stack >>= runCode ahead) :=
  List.foldlM_append

/-- The largest height is not exceeded behind any instruction. -/
lemma heightAfter_le_maxHeight (some_done : done ≠ []) :
    heightAfter done before ≤ maxHeight (done ++ ahead) before := by
  induction done generalizing before with
  | nil => exact absurd rfl some_done
  | cons instruction done ih =>
    rw [heightAfter_cons, List.cons_append, maxHeight]
    cases done with
    | nil => exact Nat.le_max_left _ _
    | cons second done => exact Nat.le_trans (ih (List.cons_ne_nil _ _)) (Nat.le_max_right _ _)

/-- The largest height is that behind one of the instructions. -/
lemma exists_heightAfter_eq (nonempty : code ≠ []) (before : Nat) :
    ∃ done ahead, code = done ++ ahead ∧ done ≠ [] ∧
      heightAfter done before = maxHeight code before := by
  induction code generalizing before with
  | nil => exact absurd rfl nonempty
  | cons instruction code ih =>
    have here : ∃ done ahead, instruction :: code = done ++ ahead ∧ done ≠ [] ∧
        heightAfter done before = instruction.height before :=
      ⟨[instruction], code, rfl, List.cons_ne_nil _ _, rfl⟩
    obtain lower | higher := Nat.le_total (maxHeight code (instruction.height before))
      (instruction.height before)
    · rwa [maxHeight, Nat.max_eq_left lower]
    · rw [maxHeight, Nat.max_eq_right higher]
      cases code with
      | nil =>
        rw [maxHeight] at higher ⊢
        rwa [Nat.le_zero.1 higher] at here
      | cons second code =>
        obtain ⟨done, ahead, same, -, height⟩ :=
          ih (List.cons_ne_nil _ _) (instruction.height before)
        exact ⟨instruction :: done, ahead, congrArg _ same, List.cons_ne_nil _ _, height⟩

/-- No part of a run from the empty stack grows higher than the largest height. -/
lemma length_le_maxHeight {stack : List Float} (ok : runCode done [] = .ok stack)
    (ahead : List Instruction) : stack.length ≤ maxHeight (done ++ ahead) 0 := by
  rw [length_of_runCode ok]
  cases done with
  | nil => exact Nat.zero_le _
  | cons first done => exact heightAfter_le_maxHeight (List.cons_ne_nil first done)

/-- A run that succeeds grows as high as the largest height. -/
lemma exists_length_eq_maxHeight {stack final : List Float} (ok : runCode code stack = .ok final)
    (nonempty : code ≠ []) :
    ∃ done ahead middle, code = done ++ ahead ∧ done ≠ [] ∧ runCode done stack = .ok middle ∧
      middle.length = maxHeight code stack.length := by
  obtain ⟨done, ahead, rfl, some_done, height⟩ := exists_heightAfter_eq nonempty stack.length
  rw [runCode_append, bind_eq_ok_iff] at ok
  obtain ⟨middle, okDone, -⟩ := ok
  exact ⟨done, ahead, middle, rfl, some_done, okDone, (length_of_runCode okDone).trans height⟩

/-- Every instruction finds its operands on a stack that has the given height at first. -/
def Supplied : List Instruction → Nat → Prop
  | [], _ => True
  | instruction :: code, before =>
    instruction.operands ≤ before ∧ Supplied code (instruction.height before)

/-- What the code before an instruction leaves is enough for its operands. -/
lemma Supplied.operands_le {instruction}
    (supplied : Supplied (done ++ instruction :: ahead) before) :
    instruction.operands ≤ heightAfter done before := by
  induction done generalizing before with
  | nil => exact supplied.1
  | cons first done ih => exact ih supplied.2

end Program

namespace Expr

mutual

/-- The number of values that an expression has on the stack at most. The right operand of an
operator stands on the value of the left one. -/
def need : Expr → Nat
  | .number _ _ => 1
  | .unary _ operand _ => operand.need
  | .binary _ left right _ => max left.need (1 + right.need)
  | .call _ args _ => max 1 (needAll 0 args)

/-- The number of values on the stack at most while the expressions of a list are evaluated, each
on the values of those before it, of which there are `below` in front of the first one. -/
def needAll : Nat → List Expr → Nat
  | _, [] => 0
  | below, arg :: args => max (below + arg.need) (needAll (below + 1) args)

end

/-- Every expression needs room for its value. -/
lemma need_pos (expr : Expr) : 0 < expr.need := by
  induction expr with
  | number => exact Nat.one_pos
  | unary _ _ _ ih => exact ih
  | binary _ _ _ _ ihLeft _ => exact Nat.lt_of_lt_of_le ihLeft (Nat.le_max_left _ _)
  | call => exact Nat.lt_of_lt_of_le Nat.one_pos (Nat.le_max_left _ _)

/-- The values on which all of a list stands count for each of its expressions. -/
lemma max_needAll (before below : Nat) (args : List Expr) :
    max before (needAll (before + below) args) = before + needAll below args := by
  induction args generalizing below with
  | nil => simp [needAll]
  | cons arg args ih =>
    have rest := ih (below + 1)
    simp only [needAll, Nat.add_assoc] at rest ⊢
    omega

variable {context : Context} {expr : Expr} {args : List Expr} {next : List Instruction}
variable {before : Nat}

/-- The code of several expressions lacks no operand if that of each one lacks none. -/
lemma supplied_codeAll
    (each : ∀ arg ∈ args, ∀ next before, Program.Supplied next (before + 1) →
      Program.Supplied (arg.code context ++ next) before)
    (behind : Program.Supplied next (before + args.length)) :
    Program.Supplied (codeAll context args ++ next) before := by
  induction args generalizing before with
  | nil => exact behind
  | cons arg args ih =>
    obtain ⟨first, others⟩ := List.forall_mem_cons.1 each
    rw [codeAll, List.append_assoc]
    refine first _ before (ih others ?_)
    rwa [List.length_cons, Nat.add_comm args.length, ← Nat.add_assoc] at behind

/-- The code of an expression lacks no operand, and leaves one value more than there were. -/
lemma WellCalled.supplied (well : WellCalled context expr)
    (behind : Program.Supplied next (before + 1)) :
    Program.Supplied (expr.code context ++ next) before := by
  induction well generalizing next before with
  | number => exact ⟨Nat.zero_le _, behind⟩
  | @unary sign operand position _ ih =>
    cases sign with
    | negate =>
      rw [code, List.append_assoc]
      exact ih ⟨Nat.le_add_left 1 _, behind⟩
    | plus => exact ih behind
  | binary _ _ ihLeft ihRight =>
    rw [code, List.append_assoc, List.append_assoc]
    exact ihLeft (ihRight ⟨Nat.le_add_left 2 _, behind⟩)
  | @call name args builtin position found arity _ ih =>
    rw [code_call found, List.append_assoc]
    refine supplied_codeAll (fun arg mem next before => ih arg mem) ⟨?_, ?_⟩
    · show builtin.arity ≤ before + args.length
      omega
    · show Program.Supplied next (before + args.length - builtin.arity + 1)
      rwa [arity, Nat.add_sub_cancel]

/-- The code of several expressions grows as high as they need, or as what follows does. -/
lemma maxHeight_codeAll
    (each : ∀ arg ∈ args, ∀ next before, Program.maxHeight (arg.code context ++ next) before =
      max (before + arg.need) (Program.maxHeight next (before + 1)))
    (next : List Instruction) (before : Nat) :
    Program.maxHeight (codeAll context args ++ next) before =
      max (needAll before args) (Program.maxHeight next (before + args.length)) := by
  induction args generalizing before with
  | nil => exact (Nat.zero_max _).symm
  | cons arg args ih =>
    obtain ⟨first, others⟩ := List.forall_mem_cons.1 each
    rw [codeAll, List.append_assoc, first, ih others, needAll, List.length_cons, Nat.max_assoc,
      Nat.add_comm args.length, Nat.add_assoc]

/-- The code of an expression grows as high as the expression needs, or as what follows does. -/
lemma WellCalled.maxHeight (well : WellCalled context expr) (next : List Instruction)
    (before : Nat) :
    Program.maxHeight (expr.code context ++ next) before =
      max (before + expr.need) (Program.maxHeight next (before + 1)) := by
  induction well generalizing next before with
  | number => rfl
  | @unary sign operand position _ ih =>
    cases sign with
    | negate =>
      -- the sign leaves the stack as high as the operand, which needed a place for its value
      have pos := operand.need_pos
      rw [code, List.append_assoc, ih, need]
      show max _ (max (before + 1) (Program.maxHeight next (before + 1))) = _
      omega
    | plus => exact ih next before
  | @binary op left right position _ _ ihLeft ihRight =>
    have pos := right.need_pos
    rw [code, List.append_assoc, List.append_assoc, ihLeft, ihRight, need]
    show max _ (max _ (max (before + 1) (Program.maxHeight next (before + 1)))) = _
    omega
  | @call name args builtin position found arity _ ih =>
    have below := max_needAll before 0 args
    have height : before + args.length - builtin.arity + 1 = before + 1 := by
      rw [arity, Nat.add_sub_cancel]
    rw [code_call found, List.append_assoc, maxHeight_codeAll ih, need]
    show max _ (max (before + args.length - builtin.arity + 1) (Program.maxHeight next
      (before + args.length - builtin.arity + 1))) = _
    rw [height]
    rw [Nat.add_zero] at below
    omega

/-- The code of an expression whose calls are right lacks no operand on the empty stack. -/
lemma WellCalled.supplied_code (well : WellCalled context expr) :
    Program.Supplied (expr.code context) 0 := by
  have whole : Program.Supplied (expr.code context ++ []) 0 := well.supplied trivial
  rwa [List.append_nil] at whole

/-- The code of an expression whose calls are right grows as high as the expression needs. -/
lemma WellCalled.maxHeight_code (well : WellCalled context expr) :
    Program.maxHeight (expr.code context) 0 = expr.need := by
  have whole := well.maxHeight [] 0
  rwa [List.append_nil, Program.maxHeight, Nat.max_zero, Nat.zero_add] at whole

/-- An expression whose calls are right has code. -/
lemma WellCalled.code_ne_nil (well : WellCalled context expr) : expr.code context ≠ [] := by
  intro empty
  have height := well.maxHeight_code
  rw [empty, Program.maxHeight] at height
  exact Nat.ne_of_lt expr.need_pos height

/-- An expression whose calls are right compiles to a program that announces the height that the
expression needs. No subtraction is cut off where the height is counted; no run grows higher or
comes to an instruction without its operands; and a run with a value grows as high and leaves
nothing but the value. -/
theorem compile_need (checked : expr.check context = .ok ()) :
    ∃ program, expr.compile context = .ok program ∧
      program.maxStack = expr.need ∧
      (∀ done instruction ahead, program.code = done ++ instruction :: ahead →
        instruction.operands ≤ Program.heightAfter done 0) ∧
      (∀ done ahead stack, program.code = done ++ ahead → Program.runCode done [] = .ok stack →
        stack.length ≤ program.maxStack ∧
        ∀ instruction ∈ ahead.head?, instruction.operands ≤ stack.length) ∧
      (∀ value, program.run = .ok value →
        (∃ done ahead stack, program.code = done ++ ahead ∧ done ≠ [] ∧
          Program.runCode done [] = .ok stack ∧ stack.length = program.maxStack) ∧
        Program.runCode program.code [] = .ok [value]) := by
  have well := WellCalled.of_check checked
  have supplied := well.supplied_code
  refine ⟨_, well.compile, well.maxHeight_code, ?counted, ?bounded, ?reached⟩
  case counted =>
    intro done instruction ahead (split : expr.code context = _)
    rw [split] at supplied
    exact supplied.operands_le
  case bounded =>
    intro done ahead stack (split : expr.code context = _) ok
    refine ⟨?_, fun instruction mem => ?_⟩
    · show stack.length ≤ Program.maxHeight (expr.code context) 0
      rw [split]
      exact Program.length_le_maxHeight ok ahead
    · obtain ⟨behind, rfl⟩ := List.head?_eq_some_iff.1 mem
      rw [split] at supplied
      rw [Program.length_of_runCode ok]
      exact supplied.operands_le
  case reached =>
    intro value ok
    have run := well.runCode [] []
    rw [well.run] at ok
    rw [List.append_nil, ok, ok_bind, Program.runCode_nil] at run
    exact ⟨Program.exists_length_eq_maxHeight run well.code_ne_nil, run⟩

/-- The right operand of a product stands on the left one, and the second argument of a call on the
first. -/
theorem compile_need_of_product :
    let context := Context.empty.register "power" (Builtin.binary Float.pow)
    let expr := Expr.binary .multiply (.number 2 0)
      (.call "power" [.number 3 8, .unary .negate (.number 4 12) 11] 2) 1
    expr.check context = .ok () ∧
      ∃ program, expr.compile context = .ok program ∧ program.maxStack = 3 := by
  intro context expr
  have found : context.find? "power" = some (Builtin.binary Float.pow) := by
    simp [context, Context.find?_register]
  have args : ∀ arg ∈ [Expr.number 3 8, .unary .negate (.number 4 12) 11], WellCalled context arg :=
    List.forall_mem_cons.2 ⟨.number, List.forall_mem_singleton.2 (.unary .number)⟩
  have well : WellCalled context expr := .binary .number (.call found rfl args)
  obtain ⟨program, compiled, most, -⟩ := compile_need well.check
  exact ⟨well.check, program, compiled, most⟩

end Expr
end ArithExpr
