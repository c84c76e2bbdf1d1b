import ArithExpr.Proofs.Expr.FirstError
import ArithExpr.Proofs.Grammar.Blame
import ArithExpr.Proofs.Session.Recency

/-!
# What is read needs no check

The parser looks at the name and at the arguments of a call where it reads them, and the check goes
through the finished tree, but they come to the same. Main statement: an expression that was read
passes the check and compiles, so a text that is evaluated without a check has the value that the
check would have let pass, and a session finds no program only of a text that cannot be read
(`Session.read_needs_no_check`).
-/

namespace ArithExpr

/-- An expression whose calls are right does not fail for want of a function. -/
lemma Expr.WellCalled.eval_ne_unknownFunction {context expr} (well : WellCalled context expr)
    (name : String) (position : Nat) :
    expr.eval context ≠ .error ⟨.unknownFunction name, position⟩ := by
  intro fails
  obtain ⟨node, -, own⟩ := ((well.walks_eval _).1 fails).exists_mem
  generalize unknown : (⟨.unknownFunction name, position⟩ : EvalError) = error at own
  cases own with
  | divisor => cases unknown
  | @refusal _ _ _ _ fault => cases fault <;> cases unknown

namespace Evaluator
variable {evaluator : Evaluator} {text : String}

/-- A text is never evaluated to the lack of a function, which the parser would have found. -/
lemma evaluate_ne_unknownFunction (name : String) (position : Nat) :
    evaluator.evaluate text ≠ .error ⟨.eval (.unknownFunction name), position⟩ := by
  intro fails
  rw [evaluate, bind_eq_error_iff] at fails
  obtain notRead | ⟨expr, read, fails⟩ := fails
  · exact (Expr.accounts_of_parse notRead).elim
  · obtain ⟨⟨fault, place⟩, failsExpr, same⟩ := mapError_eq_error_iff.1 fails
    cases same
    exact (Expr.DerivedFrom.of_parse read).called.eval_ne_unknownFunction _ _ failsExpr

/-- Only a text that cannot be read has no program. -/
lemma compile_eq_error_iff {error} :
    evaluator.compile text = .error error ↔ evaluator.parse text = .error error :=
  ⟨parse_of_compile_error, compile_of_parse_error⟩

end Evaluator

namespace Session

variable {store : Store Compiled}

/-- A faithful session has no program of exactly the texts of which the evaluator has none. -/
lemma Faithful.compile_eq_error_iff (lawful : store.Lawful) {evaluator} {session : Session store}
    (faithful : Faithful evaluator session) {text error} :
    (session.compile text).1 = .error error ↔ evaluator.compile text = .error error := by
  rw [← (faithful.compile lawful text).1]
  cases (session.compile text).1 <;> simp [Except.map]

/-- An expression that was read passes the check and compiles, and evaluating its text, which does
without the check, gives what evaluating it behind the check gives, and never that a function is
unknown. A session has no program of exactly the texts that cannot be read, for the same reason. -/
theorem read_needs_no_check (evaluator : Evaluator) (text : String) :
    (∀ expr, evaluator.parse text = .ok expr →
      expr.check evaluator.context = .ok () ∧
      (∃ program, expr.compile evaluator.context = .ok program) ∧
      evaluator.evaluate text =
        (expr.checkedEval evaluator.context).mapError (Located.map .eval)) ∧
    (∀ name position, evaluator.evaluate text ≠ .error ⟨.eval (.unknownFunction name), position⟩) ∧
    ∀ (store : Store Compiled) (requests : List Request) (error : Error), store.Lawful →
      (((after store evaluator requests).compile text).1 = .error error ↔
        evaluator.parse text = .error error) := by
  refine ⟨fun expr read => ?_, Evaluator.evaluate_ne_unknownFunction,
    fun store requests error lawful => ?_⟩
  · have well := (Expr.DerivedFrom.of_parse read).called
    refine ⟨well.check, ⟨_, well.compile⟩, ?_⟩
    rw [Evaluator.evaluate, read, ok_bind, Expr.checkedEval, well.check, ok_bind]
  · rw [(faithful_after lawful evaluator requests).compile_eq_error_iff lawful,
      Evaluator.compile_eq_error_iff]

/-- A function that is declared with two arguments and takes one. A session that keeps a list has
a program for its call. -/
theorem read_needs_no_check_of_wrong_declaration :
    let context := Context.empty.register "half" ⟨2, (Builtin.unary fun x => x / 2).run⟩
    let evaluator : Evaluator := ⟨context, Limits.standard⟩
    (∃ expr, evaluator.parse "half(1,2)" = .ok expr ∧ expr.check context = .ok () ∧
      (expr.checkedEval context).mapError (Located.map Fault.eval) =
        .error ⟨Fault.eval (.wrongArity "half" 1 2), 0⟩) ∧
    Store.Lawful (Recent.store : Store Compiled) ∧
    ∀ error, ((after Recent.store evaluator []).compile "half(1,2)").1 ≠ .error error := by
  intro context evaluator
  obtain ⟨expr, read⟩ : ∃ expr, evaluator.parse "half(1,2)" = .ok expr :=
    exists_of_isOk (by decide +kernel)
  have fails : evaluator.evaluate "half(1,2)" = .error ⟨.eval (.wrongArity "half" 1 2), 0⟩ := by
    decide +kernel
  obtain ⟨needs, -, inSession⟩ := read_needs_no_check evaluator "half(1,2)"
  obtain ⟨checked, -, same⟩ := needs expr read
  refine ⟨⟨expr, read, checked, same.symm.trans fails⟩, Recent.lawful, fun error failed => ?_⟩
  have notRead := (inSession Recent.store [] error Recent.lawful).1 failed
  rw [read] at notRead
  cases notRead

end Session
end ArithExpr
