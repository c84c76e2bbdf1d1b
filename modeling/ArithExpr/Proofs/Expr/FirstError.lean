import ArithExpr.Function.Standard
import ArithExpr.Proofs.Program.Decoding
import Mathlib.Data.List.Forall2

/-!
# Which node an error belongs to

A walk through an expression that ends at the first node with an error answers with that error:
`FirstError` says which one it is without the walk. A walk that goes on behind another one goes
through the nodes of both (`Walks.bind`), so there is one case for each kind of node.

Main statements: the check of an expression walks through its nodes in preorder and ends at the
first call that the context does not allow (`Expr.check_blames_first_call`); the evaluation of an
expression whose calls are right walks through its nodes in postorder and ends at the first one that
has no value although its operands have (`Expr.eval_blames_first_node`).
-/

namespace ArithExpr
variable {α β : Type} {has : Expr → EvalError → Prop} {node : Expr} {nodes front back : List Expr}
variable {error : EvalError}

/-- An error is that of the first of some nodes that have one. -/
def FirstError (has : Expr → EvalError → Prop) (nodes : List Expr) (error : EvalError) : Prop :=
  ∃ before node after, nodes = before ++ node :: after ∧
    (∀ earlier ∈ before, ∀ other, ¬ has earlier other) ∧ has node error

namespace FirstError

/-- The first error is that of one of the nodes. -/
lemma exists_mem (first : FirstError has nodes error) : ∃ node ∈ nodes, has node error := by
  obtain ⟨before, node, after, rfl, -, own⟩ := first
  exact ⟨node, List.mem_append_right _ List.mem_cons_self, own⟩

/-- Without nodes there is no first error. -/
lemma not_nil : ¬ FirstError has [] error := by
  intro first
  obtain ⟨node, mem, -⟩ := first.exists_mem
  cases mem

/-- The first node has the first error, unless it has none. -/
lemma cons_iff : FirstError has (node :: nodes) error ↔
    has node error ∨ (∀ other, ¬ has node other) ∧ FirstError has nodes error := by
  constructor
  · rintro ⟨before, blamed, after, same, none, own⟩
    cases before with
    | nil =>
      cases same
      exact .inl own
    | cons first before =>
      cases same
      obtain ⟨noneFirst, none⟩ := List.forall_mem_cons.1 none
      exact .inr ⟨noneFirst, before, blamed, after, rfl, none, own⟩
  · rintro (own | ⟨noneFirst, before, blamed, after, rfl, none, own⟩)
    · exact ⟨[], node, nodes, rfl, List.forall_mem_nil _, own⟩
    · exact ⟨node :: before, blamed, after, rfl, List.forall_mem_cons.2 ⟨noneFirst, none⟩, own⟩

/-- The first error is in the front, or in the back if the front has none. -/
lemma append_iff : FirstError has (front ++ back) error ↔
    FirstError has front error ∨
      (∀ node ∈ front, ∀ other, ¬ has node other) ∧ FirstError has back error := by
  induction front with
  | nil => simp [not_nil]
  | cons node front ih =>
    rw [List.cons_append, cons_iff, ih, cons_iff, List.forall_mem_cons, and_or_left, or_assoc,
      and_assoc]

/-- Some nodes have a first error if one of them has any. -/
lemma exists_iff :
    (∃ error, FirstError has nodes error) ↔ ∃ node ∈ nodes, ∃ error, has node error := by
  classical
  constructor
  · rintro ⟨error, first⟩
    obtain ⟨node, mem, own⟩ := first.exists_mem
    exact ⟨node, mem, error, own⟩
  · rintro ⟨node, mem, error, own⟩
    induction nodes with
    | nil => cases mem
    | cons first nodes ih =>
      -- whether a node has an error need not be decidable
      by_cases blamed : ∃ error, has first error
      · exact blamed.imp fun _ ownFirst => cons_iff.2 (.inl ownFirst)
      · obtain rfl | mem := List.mem_cons.1 mem
        · exact absurd ⟨error, own⟩ blamed
        · exact (ih mem).imp fun _ first => cons_iff.2 (.inr ⟨not_exists.1 blamed, first⟩)

end FirstError

/-- An answer is an error exactly if some of the nodes have one, and then it is the first of
theirs. -/
def Walks (has : Expr → EvalError → Prop) (nodes : List Expr) (answer : Except EvalError α) :
    Prop :=
  ∀ error, answer = .error error ↔ FirstError has nodes error

namespace Walks
variable {answer : Except EvalError α} {next : α → Except EvalError β}

/-- A walk through no nodes meets no error. -/
lemma nil (value : α) : Walks has [] (.ok value) :=
  fun _ => iff_of_false nofun FirstError.not_nil

/-- A walk through one node. -/
lemma single (own : ∀ error, answer = .error error ↔ has node error) : Walks has [node] answer := by
  intro error
  rw [FirstError.cons_iff, own error]
  simp only [FirstError.not_nil, and_false, or_false]

/-- A walk ends at a node with one error. -/
lemma stop (own : ∀ other, has node other ↔ other = error) :
    Walks has (node :: nodes) (.error error : Except EvalError α) := by
  intro other
  rw [FirstError.cons_iff, own other, Except.error.injEq, eq_comm]
  have some : ¬ ∀ other, ¬ has node other := fun none => none error ((own error).2 rfl)
  simp only [some, false_and, or_false]

/-- A walk goes on behind a node without an error. -/
lemma skip (none : ∀ other, ¬ has node other) (walks : Walks has nodes answer) :
    Walks has (node :: nodes) answer := by
  intro error
  rw [FirstError.cons_iff, walks error]
  simp only [none, not_false_eq_true, implies_true, true_and, false_or]

/-- A walk meets an error if one of its nodes has any. -/
lemma exists_iff (walks : Walks has nodes answer) :
    (∃ error, answer = .error error) ↔ ∃ node ∈ nodes, ∃ error, has node error := by
  rw [← FirstError.exists_iff]
  exact exists_congr walks

/-- A walk that ends with a value has met no error. -/
lemma none_of_ok {value : α} (walks : Walks has nodes (.ok value)) :
    ∀ node ∈ nodes, ∀ error, ¬ has node error := by
  intro node mem error own
  obtain ⟨_, fails⟩ := walks.exists_iff.2 ⟨node, mem, error, own⟩
  cases fails

/-- A walk goes on behind another one if that has met no error. -/
lemma bind (walks : Walks has front answer)
    (goesOn : ∀ value, answer = .ok value → Walks has back (next value)) :
    Walks has (front ++ back) (answer >>= next) := by
  intro error
  rw [FirstError.append_iff, ← walks error]
  cases answer with
  | error other =>
    have met : ¬ ∀ node ∈ front, ∀ other, ¬ has node other := by
      intro none
      obtain ⟨node, mem, _, own⟩ := walks.exists_iff.1 ⟨other, rfl⟩
      exact none node mem _ own
    simp only [error_bind, Except.error.injEq, met, false_and, or_false]
  | ok value =>
    rw [ok_bind, goesOn value rfl error]
    simp only [reduceCtorEq, false_or]
    exact (and_iff_right walks.none_of_ok).symm

end Walks

namespace Expr

mutual

/-- The nodes of an expression, each as the expression that it is the root of, and in front of those
that it applies to. -/
def preorder : Expr → List Expr
  | .number value position => [.number value position]
  | .unary sign operand position => .unary sign operand position :: operand.preorder
  | .binary op left right position =>
    .binary op left right position :: (left.preorder ++ right.preorder)
  | .call name args position => .call name args position :: preorderAll args

/-- The nodes of several expressions, one expression after the other. -/
def preorderAll : List Expr → List Expr
  | [] => []
  | arg :: args => arg.preorder ++ preorderAll args

end

/-- A call that a context does not allow, and the error that says why. -/
inductive WrongCall (context : Context) : Expr → EvalError → Prop where
  | unknown {name args position} :
    context.find? name = none →
    WrongCall context (.call name args position) ⟨.unknownFunction name, position⟩
  | arity {name args builtin position} :
    context.find? name = some builtin →
    builtin.arity ≠ args.length →
    WrongCall context (.call name args position)
      ⟨.wrongArity name builtin.arity args.length, position⟩

variable {context : Context} {expr : Expr} {args : List Expr}

/-- A node is no wrong call if it is none or one of a function with as many arguments. -/
lemma not_wrongCall_iff {node : Expr} : (∀ error, ¬ WrongCall context node error) ↔
    ∀ name args position, node = .call name args position →
      context.arity? name = some args.length := by
  constructor
  · rintro right name args position rfl
    rw [Context.arity?]
    cases found : context.find? name with
    | none => exact absurd (.unknown found) (right _)
    | some builtin =>
      by_cases arity : builtin.arity = args.length
      · rw [Option.map_some, arity]
      · exact absurd (.arity found arity) (right _)
  · intro right error wrong
    cases wrong with
    | unknown unknown =>
      have known := right _ _ _ rfl
      rw [Context.arity?, unknown] at known
      cases known
    | arity found differs =>
      have known := right _ _ _ rfl
      rw [Context.arity?, found] at known
      exact differs (Option.some.inj known)

/-- The check of a list walks through its expressions if that of each one does. -/
lemma walks_checkAll
    (each : ∀ arg ∈ args, Walks (WrongCall context) arg.preorder (arg.check context)) :
    Walks (WrongCall context) (preorderAll args) (checkAll context args) := by
  induction args with
  | nil => exact .nil ()
  | cons arg args ih =>
    obtain ⟨first, others⟩ := List.forall_mem_cons.1 each
    exact first.bind fun _ _ => ih others

/-- The check of an expression looks at its calls in preorder. -/
theorem walks_check (context : Context) (expr : Expr) :
    Walks (WrongCall context) expr.preorder (expr.check context) := by
  induction expr with
  | number => exact .single fun _ => iff_of_false nofun nofun
  | unary sign operand position ih => exact .skip (fun _ => nofun) ih
  | binary op left right position ihLeft ihRight =>
    exact .skip (fun _ => nofun) (ihLeft.bind fun _ _ => ihRight)
  | call name args position ih =>
    rw [check, preorder, Context.arity?]
    cases found : context.find? name with
    | none =>
      refine .stop fun other => ⟨fun wrong => ?_, fun same => same ▸ .unknown found⟩
      cases wrong with
      | unknown => rfl
      | arity known => cases found.symm.trans known
    | some builtin =>
      simp only [Option.map_some]
      split
      next arity =>
        refine .skip (not_wrongCall_iff.2 ?_) (walks_checkAll ih)
        rintro _ _ _ same
        cases same
        rw [Context.arity?, found, Option.map_some, arity]
      next differs =>
        refine .stop fun other => ⟨fun wrong => ?_, fun same => same ▸ .arity found differs⟩
        cases wrong with
        | unknown unknown => cases found.symm.trans unknown
        | arity known =>
          cases found.symm.trans known
          rfl

/-- The check of an expression succeeds if every call names a function of the context and has as
many arguments as that function is declared with. Otherwise it gives the error of the first call in
preorder that does not, and whatever else is wrong with the expression, that is what its evaluation
and its compilation answer with. -/
theorem check_blames_first_call (context : Context) (expr : Expr) :
    (expr.check context = .ok () ↔
      ∀ name args position, .call name args position ∈ expr.preorder →
        context.arity? name = some args.length) ∧
    ∀ error, (expr.check context = .error error ↔
        FirstError (WrongCall context) expr.preorder error) ∧
      (FirstError (WrongCall context) expr.preorder error →
        expr.checkedEval context = .error error ∧ expr.compile context = .error error) := by
  have walks := walks_check context expr
  refine ⟨?_, fun error => ⟨walks error, fun first => ?_⟩⟩
  · constructor
    · intro ok name args position mem
      rw [ok] at walks
      exact not_wrongCall_iff.1 (walks.none_of_ok _ mem) _ _ _ rfl
    · intro right
      cases checked : expr.check context with
      | ok done => rfl
      | error error =>
        obtain ⟨node, mem, _, wrong⟩ := walks.exists_iff.1 ⟨error, checked⟩
        refine (not_wrongCall_iff.2 ?_ _ wrong).elim
        rintro name args position rfl
        exact right name args position mem
  · have fails := (walks error).2 first
    rw [checkedEval, compile, fails, error_bind, error_bind]
    exact ⟨rfl, rfl⟩

/-- A sum of a quotient by zero and a call that is not known. -/
theorem check_blames_call_behind_quotient :
    let expr := Expr.binary .add (.binary .divide (.number 1 0) (.number 0 4) 2)
      (.call "missing" [] 8) 6
    FirstError (WrongCall Standard.context) expr.preorder ⟨.unknownFunction "missing", 8⟩ ∧
      expr.checkedEval Standard.context = .error ⟨.unknownFunction "missing", 8⟩ ∧
      expr.compile Standard.context = .error ⟨.unknownFunction "missing", 8⟩ := by
  intro expr
  obtain ⟨-, blames⟩ := check_blames_first_call Standard.context expr
  obtain ⟨blamed, reported⟩ := blames ⟨.unknownFunction "missing", 8⟩
  have first := blamed.1 (by decide +kernel)
  exact ⟨first, reported first⟩

/-- A node that has no value although its operands have values, and the error that says why: a
quotient by zero, or a call that its function refuses. -/
inductive Failing (context : Context) : Expr → EvalError → Prop where
  | divisor {left right x y position} :
    left.eval context = .ok x →
    right.eval context = .ok y →
    (y == 0.0) = true →
    Failing context (.binary .divide left right position) ⟨.divisionByZero, position⟩
  | refusal {name args builtin values fault position} :
    context.find? name = some builtin →
    List.Forall₂ (fun arg value => arg.eval context = .ok value) args values →
    builtin.run values = .error fault →
    Failing context (.call name args position) ⟨.ofFunction name fault, position⟩

/-- A node fails at its own place, and a call with its own name. -/
lemma Failing.at_node {node : Expr} {error} (fails : Failing context node error) :
    error.position = node.position ∧
      ∀ name args position, node = .call name args position →
        ∃ fault, error.value = .ofFunction name fault := by
  cases fails with
  | divisor => exact ⟨rfl, nofun⟩
  | @refusal name args builtin values fault position =>
    refine ⟨rfl, fun name' args' position' same => ?_⟩
    cases same
    exact ⟨fault, rfl⟩

/-- A list has values if each of its expressions has one. -/
lemma evalAll_eq_ok_iff {values} : evalAll context args = .ok values ↔
    List.Forall₂ (fun arg value => arg.eval context = .ok value) args values := by
  induction args generalizing values with
  | nil =>
    rw [evalAll, List.forall₂_nil_left_iff, Except.ok.injEq, eq_comm]
  | cons arg args ih =>
    simp only [evalAll, bind_eq_ok_iff, ih]
    constructor
    · rintro ⟨value, ok, values, others, same⟩
      cases same
      exact .cons ok others
    · intro all
      cases all with
      | cons ok others => exact ⟨_, ok, _, others, rfl⟩

/-- The evaluation of a list walks through its expressions if that of each one does. -/
lemma walks_evalAll
    (each : ∀ arg ∈ args, Walks (Failing context) arg.postorder (arg.eval context)) :
    Walks (Failing context) (postorderAll args) (evalAll context args) := by
  induction args with
  | nil => exact .nil []
  | cons arg args ih =>
    obtain ⟨first, others⟩ := List.forall_mem_cons.1 each
    rw [postorderAll, evalAll, ← List.append_nil (postorderAll args)]
    exact first.bind fun _ _ => (ih others).bind fun _ _ => .nil _

/-- The evaluation of an expression whose calls are right comes to its nodes in postorder. -/
theorem WellCalled.walks_eval (well : WellCalled context expr) :
    Walks (Failing context) expr.postorder (expr.eval context) := by
  induction well with
  | number => exact .single fun _ => iff_of_false nofun nofun
  | unary _ ih => exact ih.bind fun _ _ => .single fun _ => iff_of_false nofun nofun
  | @binary op left right position _ _ ihLeft ihRight =>
    rw [postorder, List.append_assoc, eval]
    -- the node itself comes last, and only if both of its operands have values
    refine ihLeft.bind fun x okLeft => ihRight.bind fun y okRight => .single fun error => ?_
    rw [mapError_eq_error_iff]
    constructor
    · rintro ⟨fault, applied, rfl⟩
      obtain ⟨rfl, zero, rfl⟩ := Operator.apply_eq_error_iff.1 applied
      exact .divisor okLeft okRight zero
    · intro fails
      cases fails with
      | divisor okLeft' okRight' zero =>
        cases okLeft.symm.trans okLeft'
        cases okRight.symm.trans okRight'
        exact ⟨_, Operator.apply_eq_error_iff.2 ⟨rfl, zero, rfl⟩, rfl⟩
  | @call name args builtin position found _ _ ih =>
    simp only [postorder, eval, found]
    refine (walks_evalAll ih).bind fun values evaluated => .single fun error => ?_
    rw [mapError_eq_error_iff]
    constructor
    · rintro ⟨fault, refused, rfl⟩
      exact .refusal found (evalAll_eq_ok_iff.1 evaluated) refused
    · intro fails
      cases fails with
      | refusal found' evaluated' refused =>
        cases found.symm.trans found'
        cases evaluated.symm.trans (evalAll_eq_ok_iff.2 evaluated')
        exact ⟨_, refused, rfl⟩

/-- An expression whose calls are right has a value unless one of its nodes fails. Its error is then
that of the first one in postorder that does, at the place of that node and, if it is a call, with
its name. -/
theorem eval_blames_first_node (context : Context) (expr : Expr)
    (checked : expr.check context = .ok ()) :
    ((∃ error, expr.eval context = .error error) ↔
      ∃ node ∈ expr.postorder, ∃ error, Failing context node error) ∧
    (∀ error, expr.eval context = .error error ↔
      FirstError (Failing context) expr.postorder error) ∧
    ∀ node error, Failing context node error → error.position = node.position ∧
      ∀ name args position, node = .call name args position →
        ∃ fault, error.value = .ofFunction name fault := by
  have walks := (WellCalled.of_check checked).walks_eval
  exact ⟨walks.exists_iff, walks, fun _ _ fails => fails.at_node⟩

/-- A call with two arguments that both fail. -/
theorem eval_blames_first_argument :
    let expr := Expr.call "max" [.binary .divide (.number 1 4) (.number 0 8) 6,
      .call "sqrt" [.number (-1) 16] 11] 0
    expr.check Standard.context = .ok () ∧
      expr.eval Standard.context = .error ⟨.divisionByZero, 6⟩ ∧
      FirstError (Failing Standard.context) expr.postorder ⟨.divisionByZero, 6⟩ := by
  intro expr
  have checked : expr.check Standard.context = .ok () := by decide +kernel
  have fails : expr.eval Standard.context = .error ⟨.divisionByZero, 6⟩ := by decide +kernel
  obtain ⟨-, blames, -⟩ := eval_blames_first_node Standard.context expr checked
  exact ⟨checked, fails, (blames _).1 fails⟩

end Expr
end ArithExpr
