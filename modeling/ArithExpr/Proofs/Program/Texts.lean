import ArithExpr.Evaluator
import ArithExpr.Proofs.Grammar.Exactness
import ArithExpr.Proofs.Program.Lowering

/-!
# Programs of texts

The calls of an expression that was read are right, so the expression compiles. Main statement:
running the program of a text is evaluating the text (`Evaluator.run_of_compile`).
-/

namespace ArithExpr.Evaluator
variable {evaluator : Evaluator} {text : String}

/-- A text that cannot be read has no program. -/
lemma compile_of_parse_error {error} (fails : evaluator.parse text = .error error) :
    evaluator.compile text = .error error := by
  rw [compile, fails, error_bind]

/-- A text that is read has the program of its expression. -/
lemma compile_of_parse {expr} (ok : evaluator.parse text = .ok expr) :
    ∃ program, expr.compile evaluator.context = .ok program ∧
      evaluator.compile text = .ok program := by
  have well := (Expr.DerivedFrom.of_parse ok).called
  refine ⟨_, well.compile, ?_⟩
  rw [compile, ok, ok_bind, well.compile, mapError_ok]

/-- Only a text that stands for no expression has no program, and for the same reason. -/
lemma parse_of_compile_error {error} (fails : evaluator.compile text = .error error) :
    evaluator.parse text = .error error := by
  cases parsed : evaluator.parse text with
  | error found =>
    cases (compile_of_parse_error parsed).symm.trans fails
    rfl
  | ok expr =>
    obtain ⟨program, -, compiled⟩ := compile_of_parse parsed
    cases compiled.symm.trans fails

/-- Only a text that stands for an expression has a program, that of the expression. -/
lemma parse_of_compile {program} (ok : evaluator.compile text = .ok program) :
    ∃ expr, evaluator.parse text = .ok expr ∧
      expr.compile evaluator.context = .ok program := by
  cases parsed : evaluator.parse text with
  | error error => cases (compile_of_parse_error parsed).symm.trans ok
  | ok expr =>
    obtain ⟨found, lowered, compiled⟩ := compile_of_parse parsed
    cases compiled.symm.trans ok
    exact ⟨expr, rfl, lowered⟩

/-- The error of a text that has no program is also the one of its value. -/
lemma evaluate_of_compile_error {error} (fails : evaluator.compile text = .error error) :
    evaluator.evaluate text = .error error := by
  rw [evaluate, parse_of_compile_error fails, error_bind]

/-- Running the program of a text is evaluating the text. -/
theorem run_of_compile {program} (ok : evaluator.compile text = .ok program) :
    program.run.mapError (Located.map .eval) = evaluator.evaluate text := by
  obtain ⟨expr, parsed, lowered⟩ := parse_of_compile ok
  have well := Expr.WellCalled.of_compile lowered
  rw [well.compile] at lowered
  cases lowered
  rw [well.run, evaluate, parsed, ok_bind]

end ArithExpr.Evaluator
