import ArithExpr.Expr.Eval
import ArithExpr.Proofs.Outcome

/-!
# Expressions whose calls are right

The judgment `WellCalled context expr` says that every call in `expr` names a function of `context`
and has as many arguments as that function is declared with. The check of an expression succeeds on
exactly these expressions (`WellCalled.of_check`, `WellCalled.check`).
-/

namespace ArithExpr.Expr

/-- Induction on expressions that gives the hypothesis for every argument of a call. -/
@[elab_as_elim, induction_eliminator]
theorem induction {motive : Expr → Prop}
    (number : ∀ value position, motive (.number value position))
    (unary : ∀ sign operand position, motive operand → motive (.unary sign operand position))
    (binary : ∀ op left right position, motive left → motive right →
      motive (.binary op left right position))
    (call : ∀ name args position, (∀ arg ∈ args, motive arg) → motive (.call name args position))
    (expr : Expr) : motive expr :=
  @Expr.rec motive (fun args => ∀ arg ∈ args, motive arg) number unary binary call
    (fun _ mem => nomatch mem)
    (fun _ _ ihArg ihArgs => List.forall_mem_cons.2 ⟨ihArg, ihArgs⟩) expr

/-- Every call names a function of the context and has as many arguments as that function is
declared with. -/
inductive WellCalled (context : Context) : Expr → Prop where
  | number {value position} :
    WellCalled context (.number value position)
  | unary {sign operand position} :
    WellCalled context operand →
    WellCalled context (.unary sign operand position)
  | binary {op left right position} :
    WellCalled context left →
    WellCalled context right →
    WellCalled context (.binary op left right position)
  | call {name args builtin position} :
    context.find? name = some builtin →
    builtin.arity = args.length →
    (∀ arg ∈ args, WellCalled context arg) →
    WellCalled context (.call name args position)

/-- The check of a list succeeds if it does for each expression of it. -/
lemma checkAll_eq_ok_iff {context args} :
    checkAll context args = .ok () ↔ ∀ arg ∈ args, check context arg = .ok () := by
  induction args with
  | nil => simp [checkAll]
  | cons arg args ih =>
    rw [List.forall_mem_cons, ← ih, checkAll, bind_eq_ok_iff]
    exact ⟨fun ⟨_, ok⟩ => ok, fun ok => ⟨(), ok⟩⟩

/-- The calls of an expression that passes the check are right. -/
lemma WellCalled.of_check {context expr} (ok : check context expr = .ok ()) :
    WellCalled context expr := by
  induction expr with
  | number => exact .number
  | unary sign operand position ih =>
    rw [check] at ok
    exact .unary (ih ok)
  | binary op left right position ihLeft ihRight =>
    rw [check, bind_eq_ok_iff] at ok
    obtain ⟨_, okLeft, okRight⟩ := ok
    exact .binary (ihLeft okLeft) (ihRight okRight)
  | call name args position ih =>
    rw [check, Context.arity?] at ok
    cases found : context.find? name with
    | none => simp [found] at ok
    | some builtin =>
      simp only [found, Option.map_some] at ok
      split at ok
      next arity =>
        have all := checkAll_eq_ok_iff.1 ok
        exact .call found arity fun arg mem => ih arg mem (all arg mem)
      next => cases ok

/-- An expression whose calls are right passes the check. -/
lemma WellCalled.check {context expr} (well : WellCalled context expr) :
    expr.check context = .ok () := by
  induction well with
  | number => rw [Expr.check]
  | unary _ ih => rw [Expr.check, ih]
  | binary _ _ ihLeft ihRight =>
    rw [Expr.check, ihLeft]
    exact ihRight
  | call found arity _ ih =>
    simp only [Expr.check, Context.arity?, found, Option.map_some, arity, if_true]
    exact checkAll_eq_ok_iff.2 ih

/-- There are as many values as arguments. -/
lemma length_evalAll {context args values} (ok : evalAll context args = .ok values) :
    values.length = args.length := by
  induction args generalizing values with
  | nil =>
    cases ok
    rfl
  | cons arg args ih =>
    simp only [evalAll, bind_eq_ok_iff] at ok
    obtain ⟨value, -, others, okOthers, eq⟩ := ok
    cases eq
    simp [ih okOthers]

end ArithExpr.Expr
