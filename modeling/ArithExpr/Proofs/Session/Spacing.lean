import ArithExpr.Proofs.Session.Recency
import ArithExpr.Proofs.Token.Spacing

/-!
# Blanks are never visible

A text is read alike however its words are spaced, and so is its value. Only places move: each node
of the tree and each error belongs where its first character is in the widened text. Main statement:
`Session.ignores_spacing`.
-/

namespace ArithExpr
variable {text : String} (spacing : Spacing text)

/-- The expression of the widened text is that of the text with its nodes moved, or its error is. -/
theorem Expr.parse_widened (context : Context) (limit : Nat) :
    parse context limit spacing.widened =
      ((parse context limit text).map (relocate spacing.place)).mapError
        (Located.relocate spacing.place) := by
  simp only [parse]
  rw [spacing.ofText_widened]
  exact Parser.whole_moves spacing.place ⟨context, limit, (Tokens.ofText text).ending⟩
    (Tokens.ofText text).list

/-- The value of the widened text is that of the text, or its error is moved. -/
theorem Evaluator.evaluate_widened (evaluator : Evaluator) :
    evaluator.evaluate spacing.widened =
      (evaluator.evaluate text).mapError (Located.relocate spacing.place) := by
  rw [evaluate, evaluate, parse, parse, Expr.parse_widened]
  cases Expr.parse evaluator.context evaluator.limits.maxDepth text with
  | error error => rfl
  | ok expr =>
    show ((expr.relocate spacing.place).eval evaluator.context).mapError (Located.map Fault.eval) =
      ((expr.eval evaluator.context).mapError (Located.map Fault.eval)).mapError _
    rw [Expr.eval_relocate]
    cases expr.eval evaluator.context <;> rfl

namespace Session

/-- Whatever a session was asked before, it finds the value that its evaluator finds. -/
lemma evaluate_after {store : Store Compiled} (lawful : store.Lawful) (evaluator : Evaluator)
    (requests : List Request) (text : String) :
    ((after store evaluator requests).evaluate text).1 = evaluator.evaluate text :=
  ((faithful_after lawful evaluator requests).evaluate lawful text).1

/-- Blanks between words keep all characters and their order. The widened text is read like the
text, evaluates like the text, and does so in any session, and only places move with the characters
that they are places of. -/
theorem ignores_spacing :
    ((∀ i c, text.toList[i]? = some c → spacing.widened.toList[spacing.place i]? = some c) ∧
      spacing.place text.length = spacing.widened.length) ∧
    (∀ context limit,
      Expr.parse context limit spacing.widened =
        ((Expr.parse context limit text).map (Expr.relocate spacing.place)).mapError
          (Located.relocate spacing.place)) ∧
    (∀ evaluator : Evaluator,
      evaluator.evaluate spacing.widened =
        (evaluator.evaluate text).mapError (Located.relocate spacing.place)) ∧
    (∀ (store : Store Compiled) (evaluator : Evaluator) (requests requests' : List Request),
      store.Lawful →
      ((after store evaluator requests).evaluate spacing.widened).1 =
        ((after store evaluator requests').evaluate text).1.mapError
          (Located.relocate spacing.place)) := by
  refine ⟨⟨fun _ _ => spacing.getElem?_widened, spacing.place_length⟩, Expr.parse_widened spacing,
    Evaluator.evaluate_widened spacing, fun store evaluator requests requests' lawful => ?_⟩
  rw [evaluate_after lawful, evaluate_after lawful]
  exact Evaluator.evaluate_widened spacing evaluator

/-- A quotient by zero with a blank in front of each word: the error moves with the slash. -/
theorem ignores_spacing_of_quotient :
    let spacing := Spacing.apart "1/0"
    spacing.widened = " 1 / 0" ∧
    Evaluator.standard.evaluate "1/0" = .error ⟨.eval .divisionByZero, 1⟩ ∧
    Evaluator.standard.evaluate spacing.widened = .error ⟨.eval .divisionByZero, 3⟩ ∧
    ((after Recent.store Evaluator.standard []).evaluate spacing.widened).1 =
      .error ⟨.eval .divisionByZero, 3⟩ := by
  intro spacing
  have place : spacing.place 1 = 3 := by decide +kernel
  have fails : Evaluator.standard.evaluate "1/0" = .error ⟨.eval .divisionByZero, 1⟩ := by
    decide +kernel
  obtain ⟨-, -, evaluates, answers⟩ := ignores_spacing spacing
  refine ⟨by decide +kernel, fails, ?_, ?_⟩
  · rw [evaluates, fails, mapError_error, Located.relocate, place]
  · rw [answers Recent.store Evaluator.standard [] [] Recent.lawful, evaluate_after Recent.lawful,
      fails, mapError_error, Located.relocate, place]

end Session
end ArithExpr
