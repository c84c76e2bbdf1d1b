import ArithExpr.Expr.Eval
import ArithExpr.Program.Compile
import ArithExpr.Proofs.Expr.Calls

/-!
# Contexts that agree on the names of an expression

The check, the evaluation and the compilation of an expression ask a context for the names of its
calls and for nothing else. Main statements: two contexts that agree on these names are not told
apart by the check (`Expr.check_congr`), by the value (`Expr.checkedEval_congr`) and by the program
(`Expr.compile_congr`) of the expression.
-/

namespace ArithExpr

/-- Two contexts give each of some names the same function, or both give it none. -/
def Context.AgreeOn (names : List String) (context context' : Context) : Prop :=
  ∀ name ∈ names, context.find? name = context'.find? name

namespace Context.AgreeOn
variable {names names' : List String} {name : String} {context context' : Context}

/-- Contexts that agree on some names agree on fewer. -/
lemma mono (agree : AgreeOn names context context') (fewer : names' ⊆ names) :
    AgreeOn names' context context' :=
  fun name mem => agree name (fewer mem)

/-- Agreement on two lists of names is agreement on both together. -/
lemma append_iff : AgreeOn (names ++ names') context context' ↔
    AgreeOn names context context' ∧ AgreeOn names' context context' :=
  List.forall_mem_append

/-- Agreement on a list of names is agreement on the first one and on the others. -/
lemma cons_iff : AgreeOn (name :: names) context context' ↔
    context.find? name = context'.find? name ∧ AgreeOn names context context' :=
  List.forall_mem_cons

end Context.AgreeOn

/-- The context behind some registrations. -/
def Context.registerAll (context : Context) (functions : List (String × Builtin)) : Context :=
  functions.foldl (fun context entry => context.register entry.1 entry.2) context

/-- Registrations of other names change nothing for some names, whatever their order. -/
lemma Context.agreeOn_registerAll {names : List String} {functions : List (String × Builtin)}
    (others : ∀ entry ∈ functions, entry.1 ∉ names) (context : Context) :
    AgreeOn names context (context.registerAll functions) := by
  induction functions generalizing context with
  | nil => exact fun _ _ => rfl
  | cons entry functions ih =>
    obtain ⟨other, others⟩ := List.forall_mem_cons.1 others
    intro name mem
    have differs : entry.1 ≠ name := fun same => other (same ▸ mem)
    have kept : (context.register entry.1 entry.2).find? name = context.find? name := by
      rw [find?_register, if_neg differs]
    exact kept.symm.trans (ih others (context.register entry.1 entry.2) name mem)

/-- A name that two contexts agree on is declared alike in both. -/
lemma Context.arity?_congr {name : String} {context context' : Context}
    (same : context.find? name = context'.find? name) :
    context.arity? name = context'.arity? name := by
  rw [arity?, arity?, same]

namespace Expr
open Context (AgreeOn)

mutual

/-- The names of the calls in an expression, from left to right. -/
def callees : Expr → List String
  | .number _ _ => []
  | .unary _ operand _ => operand.callees
  | .binary _ left right _ => left.callees ++ right.callees
  | .call name args _ => name :: calleesAll args

/-- The names of the calls in several expressions. -/
def calleesAll : List Expr → List String
  | [] => []
  | arg :: args => arg.callees ++ calleesAll args

end

variable {context context' : Context} {args : List Expr}

/-- The check of a list is the same with functions that agree on the names called in it. -/
lemma checkAll_congr
    (each : ∀ arg ∈ args, AgreeOn arg.callees context context' →
      arg.check context = arg.check context')
    (agree : AgreeOn (calleesAll args) context context') :
    checkAll context args = checkAll context' args := by
  induction args with
  | nil => rfl
  | cons arg args ih =>
    obtain ⟨first, others⟩ := List.forall_mem_cons.1 each
    obtain ⟨agreeFirst, agreeOthers⟩ := AgreeOn.append_iff.1 agree
    rw [checkAll, checkAll, first agreeFirst, ih others agreeOthers]

/-- The check looks at the names that are called. -/
theorem check_congr {expr : Expr} (agree : AgreeOn expr.callees context context') :
    expr.check context = expr.check context' := by
  induction expr with
  | number => rfl
  | unary sign operand position ih => exact ih agree
  | binary op left right position ihLeft ihRight =>
    obtain ⟨agreeLeft, agreeRight⟩ := AgreeOn.append_iff.1 agree
    rw [check, check, ihLeft agreeLeft, ihRight agreeRight]
  | call name args position ih =>
    obtain ⟨same, agreeArgs⟩ := AgreeOn.cons_iff.1 agree
    rw [check, check, Context.arity?_congr same, checkAll_congr ih agreeArgs]

/-- The values of a list are the same with functions that agree on the names called in it. -/
lemma evalAll_congr
    (each : ∀ arg ∈ args, AgreeOn arg.callees context context' →
      arg.eval context = arg.eval context')
    (agree : AgreeOn (calleesAll args) context context') :
    evalAll context args = evalAll context' args := by
  induction args with
  | nil => rfl
  | cons arg args ih =>
    obtain ⟨first, others⟩ := List.forall_mem_cons.1 each
    obtain ⟨agreeFirst, agreeOthers⟩ := AgreeOn.append_iff.1 agree
    rw [evalAll, evalAll, first agreeFirst, ih others agreeOthers]

/-- The evaluation applies the functions that are called. -/
theorem eval_congr {expr : Expr} (agree : AgreeOn expr.callees context context') :
    expr.eval context = expr.eval context' := by
  induction expr with
  | number => rfl
  | unary sign operand position ih => rw [eval, eval, ih agree]
  | binary op left right position ihLeft ihRight =>
    obtain ⟨agreeLeft, agreeRight⟩ := AgreeOn.append_iff.1 agree
    rw [eval, eval, ihLeft agreeLeft, ihRight agreeRight]
  | call name args position ih =>
    obtain ⟨same, agreeArgs⟩ := AgreeOn.cons_iff.1 agree
    rw [eval, eval, same, evalAll_congr ih agreeArgs]

/-- The checked value is the same with functions that agree on the names called. -/
theorem checkedEval_congr {expr : Expr} (agree : AgreeOn expr.callees context context') :
    expr.checkedEval context = expr.checkedEval context' := by
  rw [checkedEval, checkedEval, check_congr agree, eval_congr agree]

/-- The code of several expressions is the same where that of each is. -/
lemma lowerAll_congr
    (each : ∀ arg ∈ args, AgreeOn arg.callees context context' →
      ∀ code, arg.lower context code = arg.lower context' code)
    (agree : AgreeOn (calleesAll args) context context') (code : Array Instruction) :
    lowerAll context args code = lowerAll context' args code := by
  induction args generalizing code with
  | nil => rfl
  | cons arg args ih =>
    obtain ⟨first, others⟩ := List.forall_mem_cons.1 each
    obtain ⟨agreeFirst, agreeOthers⟩ := AgreeOn.append_iff.1 agree
    rw [lowerAll, lowerAll, first agreeFirst]
    exact bind_congr fun code => ih others agreeOthers code

/-- The code holds the functions that are called. -/
lemma lower_congr {expr : Expr} (agree : AgreeOn expr.callees context context')
    (code : Array Instruction) : expr.lower context code = expr.lower context' code := by
  induction expr generalizing code with
  | number => rfl
  | unary sign operand position ih => rw [lower, lower, ih agree]
  | binary op left right position ihLeft ihRight =>
    obtain ⟨agreeLeft, agreeRight⟩ := AgreeOn.append_iff.1 agree
    rw [lower, lower, ihLeft agreeLeft]
    refine bind_congr fun code => ?_
    rw [ihRight agreeRight]
  | call name args position ih =>
    obtain ⟨same, agreeArgs⟩ := AgreeOn.cons_iff.1 agree
    rw [lower, lower, same]
    cases context'.find? name with
    | none => rfl
    | some builtin =>
      dsimp only
      rw [lowerAll_congr ih agreeArgs]

/-- The program is the same with functions that agree on the names called. -/
theorem compile_congr {expr : Expr} (agree : AgreeOn expr.callees context context') :
    expr.compile context = expr.compile context' := by
  rw [compile, compile, check_congr agree, lower_congr agree]

end Expr
end ArithExpr
