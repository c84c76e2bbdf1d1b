import ArithExpr.Proofs.Expr.FirstError
import ArithExpr.Proofs.Grammar.Blame
import ArithExpr.Proofs.Program.Lowering
import ArithExpr.Proofs.Session.Spacing
import Mathlib.Data.List.Basic

/-!
# Where an evaluation fails

An expression whose calls are right fails at one of its words: at a `/` whose divisor is zero, or at
the name of a function that refuses as many numbers as it is declared with (`Expr.FailsAt`). Of the
standard functions only the roots, the logarithms and the inverse functions refuse any, and only
because of their domain. Main statement: `Session.evaluate_fails_at_word`.
-/

namespace ArithExpr

namespace Builtin

/-- What a function can fail with although it has as many arguments as it is declared with. -/
def CanFail (builtin : Builtin) (fault : FunctionFault) : Prop :=
  ∃ values, values.length = builtin.arity ∧ builtin.run values = .error fault

/-- A constant does not fail. -/
lemma not_canFail_constant (value : Float) (fault : FunctionFault) :
    ¬ (constant value).CanFail fault := by
  rintro ⟨values, length, fails⟩
  rw [List.eq_nil_of_length_eq_zero length] at fails
  cases fails

/-- A function of one argument that is always defined does not fail. -/
lemma not_canFail_unary (f : Float → Float) (fault : FunctionFault) :
    ¬ (unary f).CanFail fault := by
  rintro ⟨values, length, fails⟩
  obtain ⟨x, rfl⟩ := List.length_eq_one_iff.1 length
  cases fails

/-- A function of two arguments that is always defined does not fail. -/
lemma not_canFail_binary (f : Float → Float → Float) (fault : FunctionFault) :
    ¬ (binary f).CanFail fault := by
  rintro ⟨values, length, fails⟩
  obtain ⟨x, y, rfl⟩ := List.length_eq_two.1 length
  cases fails

/-- A function with a domain fails outside of it only, and gives its reason. -/
lemma eq_domain_of_canFail_guarded {inDomain reason f fault}
    (fails : (guarded inDomain reason f).CanFail fault) : fault = .domain reason := by
  obtain ⟨values, length, fails⟩ := fails
  obtain ⟨x, rfl⟩ := List.length_eq_one_iff.1 length
  simp only [guarded] at fails
  split at fails
  · cases fails
  · cases fails
    rfl

end Builtin

namespace Expr

/-- An error at one of some words that can fail with it: at a `/`, or at the name of a function. -/
inductive FailsAt (context : Context) (words : List Token) : EvalError → Prop where
  | divisionByZero {position} :
    ⟨.operator .divide, position⟩ ∈ words →
    FailsAt context words ⟨.divisionByZero, position⟩
  | function {name builtin fault position} :
    ⟨.name name, position⟩ ∈ words →
    context.find? name = some builtin →
    builtin.CanFail fault →
    FailsAt context words ⟨.ofFunction name fault, position⟩

/-- A failure at some words is one at more words. -/
lemma FailsAt.mono {context words words' error} (fails : FailsAt context words error)
    (subset : words ⊆ words') : FailsAt context words' error := by
  cases fails with
  | divisionByZero mem => exact .divisionByZero (subset mem)
  | function mem found canFail => exact .function (subset mem) found canFail

/-- An expression whose calls are right fails at one of its words. -/
theorem WellCalled.failsAt {context expr error} (well : WellCalled context expr)
    (fails : expr.eval context = .error error) : FailsAt context expr.tokens error := by
  induction well generalizing error with
  | number => cases fails
  | @unary sign operand position _ ih =>
    rw [eval, bind_eq_error_iff] at fails
    obtain failsOperand | ⟨value, -, fails⟩ := fails
    · exact (ih failsOperand).mono (List.subset_cons_self _ _)
    · cases fails
  | @binary op left right position _ _ ihLeft ihRight =>
    rw [eval, bind_eq_error_iff] at fails
    obtain failsLeft | ⟨x, -, fails⟩ := fails
    · exact (ihLeft failsLeft).mono (List.subset_append_left _ _)
    rw [bind_eq_error_iff] at fails
    obtain failsRight | ⟨y, -, fails⟩ := fails
    · exact (ihRight failsRight).mono
        (List.Subset.trans (List.subset_cons_self _ _) (List.subset_append_right _ _))
    obtain ⟨fault, applied, rfl⟩ := mapError_eq_error_iff.1 fails
    obtain ⟨rfl, -, rfl⟩ := Operator.apply_eq_error_iff.1 applied
    exact .divisionByZero (List.mem_append_right _ List.mem_cons_self)
  | @call name args builtin position found arity _ ih =>
    simp only [eval, found, bind_eq_error_iff] at fails
    obtain failsArgs | ⟨values, evaluated, fails⟩ := fails
    · obtain ⟨arg, mem, failsArg⟩ := evalAll_eq_error failsArgs
      exact (ih arg mem failsArg).mono
        (List.Subset.trans (tokens_subset_tokensAll mem) (List.subset_cons_self _ _))
    obtain ⟨fault, refused, rfl⟩ := mapError_eq_error_iff.1 fails
    exact .function List.mem_cons_self found
      ⟨values, (length_evalAll evaluated).trans arity.symm, refused⟩

end Expr

namespace Context

/-- What a context knows after a list was registered is an entry of the list or was known before. -/
lemma mem_or_find?_of_foldl {functions : List (String × Builtin)} {context : Context} {name builtin}
    (found : (functions.foldl (fun context entry => context.register entry.1 entry.2)
      context).find? name = some builtin) :
    (name, builtin) ∈ functions ∨ context.find? name = some builtin := by
  induction functions generalizing context with
  | nil => exact .inr found
  | cons entry functions ih =>
    obtain mem | registered := ih found
    · exact .inl (List.mem_cons_of_mem _ mem)
    rw [find?_register] at registered
    split at registered
    next same =>
      cases registered
      rw [← same]
      exact .inl List.mem_cons_self
    next => exact .inr registered

/-- What a context made from a list knows is an entry of the list. -/
lemma mem_of_find?_ofList {functions : List (String × Builtin)} {name builtin}
    (found : (ofList functions).find? name = some builtin) : (name, builtin) ∈ functions := by
  obtain mem | none := mem_or_find?_of_foldl found
  · exact mem
  · rw [find?_empty] at none
    cases none

end Context

namespace Standard

/-- The names of the standard functions with a domain. -/
def guardedNames : List String :=
  ["sqrt", "ln", "log", "asin", "acos"]

/-- A standard function that can fail has a domain and refuses numbers outside of it. -/
lemma canFail_of_mem_functions {entry} (mem : entry ∈ functions) {fault}
    (fails : entry.2.CanFail fault) :
    entry.1 ∈ guardedNames ∧ ∃ reason, fault = .domain reason := by
  revert entry
  simp only [functions, List.forall_mem_cons, pi, e, sqrt, logarithm, arc,
    Builtin.not_canFail_constant, Builtin.not_canFail_unary, Builtin.not_canFail_binary,
    false_imp_iff, true_and]
  have guarded {name : String} {inDomain reason f} (named : name ∈ guardedNames) :
      (Builtin.guarded inDomain reason f).CanFail fault →
        name ∈ guardedNames ∧ ∃ reason, fault = .domain reason :=
    fun fails => ⟨named, reason, Builtin.eq_domain_of_canFail_guarded fails⟩
  exact ⟨guarded (by decide), guarded (by decide), guarded (by decide), guarded (by decide),
    guarded (by decide), List.forall_mem_nil _⟩

end Standard

/-- With the standard functions a text that is read fails to have a value only at a `/`, with a
division by zero, or at the name of a function with a domain, with an error of the domain. A session
gives the same answer. -/
theorem Session.evaluate_fails_at_word (limits : Limits) (text : String) :
    let evaluator : Evaluator := ⟨Standard.context, limits⟩
    (∀ (store : Store Compiled) (requests : List Request), store.Lawful →
      ((after store evaluator requests).evaluate text).1 = evaluator.evaluate text) ∧
    ∀ fault position, evaluator.evaluate text = .error ⟨.eval fault, position⟩ →
      fault = .divisionByZero ∧ text.toList[position]? = some '/' ∨
      ∃ name ∈ ["sqrt", "ln", "log", "asin", "acos"], ∃ reason, fault = .domain name reason ∧
        ⟨.name name, position⟩ ∈ (Tokens.ofText text).list ∧
        name.toList <+: text.toList.drop position := by
  refine ⟨fun _ requests lawful => evaluate_after lawful _ requests text,
    fun fault position fails => ?_⟩
  rw [Evaluator.evaluate, bind_eq_error_iff] at fails
  obtain notRead | ⟨expr, read, fails⟩ := fails
  · exact (Expr.accounts_of_parse notRead).elim
  obtain ⟨error, failsExpr, same⟩ := mapError_eq_error_iff.1 fails
  obtain ⟨-, -, called⟩ := Expr.DerivedFrom.of_parse read
  have failsAt := called.failsAt failsExpr
  -- the words of the expression are words of the text
  have subset : expr.tokens ⊆ (Tokens.ofText text).list := by
    rw [Expr.tokens_of_parse read]
    exact List.filter_subset_self _
  cases failsAt.mono subset with
  | divisionByZero mem =>
    cases same
    exact .inl ⟨rfl, Tokens.getElem?_of_operator mem⟩
  | @function name builtin fault _ mem found canFail =>
    obtain ⟨named, reason, rfl⟩ :=
      Standard.canFail_of_mem_functions (Context.mem_of_find?_ofList found) canFail
    cases same
    exact .inr ⟨name, named, reason, rfl, mem, Tokens.prefix_of_name mem⟩

/-- A quotient by zero fails at its operator, also in a session that has its program already. -/
theorem Session.evaluate_fails_at_word_of_quotient :
    let evaluator : Evaluator := ⟨Standard.context, Limits.standard⟩
    Store.Lawful (Recent.store : Store Compiled) ∧
    ((after Recent.store evaluator [.compile "1/0"]).evaluate "1/0").1 =
      .error ⟨.eval .divisionByZero, 1⟩ ∧
    "1/0".toList[1]? = some '/' := by
  intro evaluator
  have fails : evaluator.evaluate "1/0" = .error ⟨.eval .divisionByZero, 1⟩ := by decide +kernel
  obtain ⟨same, word⟩ := evaluate_fails_at_word Limits.standard "1/0"
  refine ⟨Recent.lawful, (same Recent.store _ Recent.lawful).trans fails, ?_⟩
  obtain ⟨-, slash⟩ | ⟨name, -, reason, domain, -⟩ := word _ _ fails
  · exact slash
  · cases domain

/-- A call outside of the domain fails at the name. -/
example : Evaluator.standard.evaluate "2*ln(0)" =
    .error ⟨.eval (.domain "ln" "argument must be positive"), 2⟩ := by
  decide +kernel

end ArithExpr
