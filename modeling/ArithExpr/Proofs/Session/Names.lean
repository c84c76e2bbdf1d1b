import ArithExpr.Function.Standard
import ArithExpr.Proofs.Grammar.Names
import ArithExpr.Proofs.Session.Spacing

/-!
# Functions that are not named are never visible

What a text is read as, its value and its program depend on the functions that it names and on no
others, and so do the check, the value and the program of an expression that was put together
otherwise. Main statement: contexts that agree on these names give the same answers, errors
included, so that other functions can be registered or replaced (`Session.depends_on_names`).
-/

namespace ArithExpr
open Context (AgreeOn)

/-- A lexer lists a name on a text. -/
def Lexer.ListsName (text name : String) : Prop :=
  ∃ n position, (step^[n] (start text)).next.1 = some (.ok ⟨some (.name name), position⟩)

/-- The names that the lexer lists are those among the tokens of the text. -/
lemma Lexer.listsName_iff {text name : String} :
    ListsName text name ↔ name ∈ namesIn (Tokens.ofText text).list := by
  have listed (n : Nat) : (step^[n] (start text)).next.1 = (Tokens.ofText text).answers[n]? :=
    next_iterate (.start text) n
  rw [mem_namesIn, ListsName, exists_comm]
  refine exists_congr fun position => ?_
  simp only [listed]
  rw [← List.mem_iff_getElem?, Tokens.answers, List.mem_append, List.mem_map]
  constructor
  · rintro (⟨⟨lexeme, place⟩, mem, same⟩ | last)
    · cases same
      exact mem
    · -- the list ends with no word
      have ends := List.mem_singleton.1 last
      split at ends
      next => cases ends
      next => cases ends
  · intro mem
    exact .inl ⟨_, mem, rfl⟩

/-- Two contexts are not told apart by the check, the value and the program of an expression. -/
structure Expr.AnswersAlike (expr : Expr) (context context' : Context) : Prop where
  check : expr.check context = expr.check context'
  value : expr.checkedEval context = expr.checkedEval context'
  program : expr.compile context = expr.compile context'

/-- Two evaluators are not told apart by a text: by the expression, the value and the program of it,
and by its value and program in any session. -/
structure Evaluator.AnswersAlike (text : String) (evaluator evaluator' : Evaluator) : Prop where
  expression : evaluator.parse text = evaluator'.parse text
  value : evaluator.evaluate text = evaluator'.evaluate text
  program : evaluator.compile text = evaluator'.compile text
  valueAfter : ∀ {store : Store Compiled}, store.Lawful → ∀ requests requests',
    ((Session.after store evaluator requests).evaluate text).1 =
      ((Session.after store evaluator' requests').evaluate text).1
  programAfter : ∀ {store : Store Compiled}, store.Lawful → ∀ requests requests',
    ((Session.after store evaluator requests).compile text).1.map Compiled.program =
      ((Session.after store evaluator' requests').compile text).1.map Compiled.program

/-- Functions that agree on the names called give an expression the same answers. -/
lemma Expr.answersAlike {expr : Expr} {context context' : Context}
    (agree : AgreeOn expr.callees context context') : expr.AnswersAlike context context' :=
  ⟨check_congr agree, checkedEval_congr agree, compile_congr agree⟩

/-- Functions that agree on the names in a text give it the same answers. -/
lemma Evaluator.answersAlike {text : String} {context context' : Context}
    (agree : AgreeOn (namesIn (Tokens.ofText text).list) context context') (limits : Limits) :
    AnswersAlike text ⟨context, limits⟩ ⟨context', limits⟩ := by
  have expression : parse ⟨context, limits⟩ text = parse ⟨context', limits⟩ text :=
    Expr.parse_congr agree limits.maxDepth
  have agreeExpr {expr} (ok : parse ⟨context', limits⟩ text = .ok expr) :
      AgreeOn expr.callees context context' :=
    agree.mono (Expr.callees_subset_of_parse ok)
  have value : evaluate ⟨context, limits⟩ text = evaluate ⟨context', limits⟩ text := by
    rw [evaluate, evaluate, expression]
    cases parsed : parse ⟨context', limits⟩ text with
    | error error => rfl
    | ok expr => rw [ok_bind, ok_bind, Expr.eval_congr (agreeExpr parsed)]
  have program : compile ⟨context, limits⟩ text = compile ⟨context', limits⟩ text := by
    rw [compile, compile, expression]
    cases parsed : parse ⟨context', limits⟩ text with
    | error error => rfl
    | ok expr => rw [ok_bind, ok_bind, Expr.compile_congr (agreeExpr parsed)]
  refine ⟨expression, value, program, fun lawful requests requests' => ?_,
    fun lawful requests requests' => ?_⟩
  · rw [Session.evaluate_after lawful, Session.evaluate_after lawful, value]
  · rw [((Session.faithful_after lawful _ requests).compile lawful text).1,
      ((Session.faithful_after lawful _ requests').compile lawful text).1, program]

/-- Contexts that agree on the names that a lexer lists on a text give the same answers for the
text, in sessions too, and contexts that agree on the names called in an expression give the same
answers for the expression. So registering any other functions, new or not and in any order, changes
no answer. -/
theorem Session.depends_on_names (context context' : Context) :
    (∀ text limits,
      (∀ name, Lexer.ListsName text name → context.find? name = context'.find? name) →
      Evaluator.AnswersAlike text ⟨context, limits⟩ ⟨context', limits⟩) ∧
    (∀ expr : Expr, AgreeOn expr.callees context context' → expr.AnswersAlike context context') ∧
    ∀ functions : List (String × Builtin),
      (∀ text limits, (∀ entry ∈ functions, ¬ Lexer.ListsName text entry.1) →
        Evaluator.AnswersAlike text ⟨context, limits⟩ ⟨context.registerAll functions, limits⟩) ∧
      ∀ expr : Expr, (∀ entry ∈ functions, entry.1 ∉ expr.callees) →
        expr.AnswersAlike context (context.registerAll functions) := by
  refine ⟨fun text limits same => ?_, fun expr => Expr.answersAlike, fun functions =>
    ⟨fun text limits others => ?_, fun expr others => ?_⟩⟩
  · exact Evaluator.answersAlike (fun name mem => same name (Lexer.listsName_iff.2 mem)) limits
  · have inText : ∀ entry ∈ functions, entry.1 ∉ namesIn (Tokens.ofText text).list :=
      fun entry mem listed => others entry mem (Lexer.listsName_iff.2 listed)
    exact Evaluator.answersAlike (Context.agreeOn_registerAll inText context) limits
  · exact Expr.answersAlike (Context.agreeOn_registerAll others context)

/-- The standard functions and those with another sine and one more function, where a text and an
expression name neither. Sessions that keep lists do not tell them apart by the text. -/
theorem Session.depends_on_names_of_other_sine :
    let functions : List (String × Builtin) := [("sin", .constant 0), ("cosh", .unary Float.cosh)]
    let context := Standard.context.registerAll functions
    let expr : Expr := .call "cos" [.number 0 4] 0
    ((∀ entry ∈ functions, ¬ Lexer.ListsName "max(1,cos(0))" entry.1) ∧
      ∀ entry ∈ functions, entry.1 ∉ expr.callees) ∧
    Evaluator.AnswersAlike "max(1,cos(0))" ⟨Standard.context, Limits.standard⟩
      ⟨context, Limits.standard⟩ ∧
    expr.AnswersAlike Standard.context context ∧
    Store.Lawful (Recent.store : Store Compiled) ∧
    ∀ requests requests',
      ((after Recent.store ⟨Standard.context, Limits.standard⟩ requests).evaluate
          "max(1,cos(0))").1 =
        ((after Recent.store ⟨context, Limits.standard⟩ requests').evaluate "max(1,cos(0))").1 := by
  intro functions context expr
  have inText : ∀ entry ∈ functions, ¬ Lexer.ListsName "max(1,cos(0))" entry.1 := by
    have names : namesIn (Tokens.ofText "max(1,cos(0))").list = ["max", "cos"] := by
      decide +kernel
    simp only [Lexer.listsName_iff, names]
    decide +kernel
  have inExpr : ∀ entry ∈ functions, entry.1 ∉ expr.callees := by decide +kernel
  obtain ⟨-, -, registers⟩ := depends_on_names Standard.context context
  have alike := (registers functions).1 _ Limits.standard inText
  exact ⟨⟨inText, inExpr⟩, alike, (registers functions).2 expr inExpr, Recent.lawful,
    alike.valueAfter Recent.lawful⟩

end ArithExpr
