import ArithExpr.Expr.Printer
import ArithExpr.Proofs.Expr.Calls

/-!
# Expressions in other places

Offsets in an expression only say where errors belong. Moving every offset of an expression by a
function moves the offset of its error and changes neither its value nor its text. Main statements:
`Expr.checkedEval_relocate` and `Expr.text_relocate`.
-/

namespace ArithExpr

/-- Moves a value to where a function takes its offset. -/
abbrev Located.relocate {α : Type} (f : Nat → Nat) (x : Located α) : Located α :=
  ⟨x.value, f x.position⟩

namespace Expr

mutual

/-- Moves every node of an expression to where a function takes its offset. -/
def relocate (f : Nat → Nat) : Expr → Expr
  | .number value position => .number value (f position)
  | .unary sign operand position => .unary sign (operand.relocate f) (f position)
  | .binary op left right position => .binary op (left.relocate f) (right.relocate f) (f position)
  | .call name args position => .call name (relocateAll f args) (f position)

/-- Moves every node of several expressions. -/
def relocateAll (f : Nat → Nat) : List Expr → List Expr
  | [] => []
  | arg :: args => arg.relocate f :: relocateAll f args

end

/-- The expression without its places. -/
def unplaced (expr : Expr) : Expr :=
  expr.relocate fun _ => 0

variable (f : Nat → Nat) (context : Context)

/-- The expressions of a list are moved one by one. -/
lemma relocateAll_eq_map (args : List Expr) : relocateAll f args = args.map (relocate f) := by
  induction args with
  | nil => rfl
  | cons arg args ih => rw [relocateAll, ih, List.map_cons]

/-- No argument gets lost when a list is moved. -/
lemma length_relocateAll (args : List Expr) : (relocateAll f args).length = args.length := by
  rw [relocateAll_eq_map, List.length_map]

/-- The check of a list that was moved gives the error of the list, moved like it. -/
lemma checkAll_relocate {args : List Expr}
    (each : ∀ arg ∈ args,
      (arg.relocate f).check context = (arg.check context).mapError (Located.relocate f)) :
    checkAll context (relocateAll f args) =
      (checkAll context args).mapError (Located.relocate f) := by
  induction args with
  | nil => rfl
  | cons arg args ih =>
    obtain ⟨first, others⟩ := List.forall_mem_cons.1 each
    rw [relocateAll, checkAll, checkAll, first, ih others, mapError_bind]

/-- The call that the context does not allow is found where it was moved. -/
lemma check_relocate (expr : Expr) :
    (expr.relocate f).check context = (expr.check context).mapError (Located.relocate f) := by
  induction expr with
  | number => rfl
  | unary sign operand position ih => exact ih
  | binary op left right position ihLeft ihRight =>
    rw [relocate, check, check, ihLeft, ihRight, mapError_bind]
  | call name args position ih =>
    rw [relocate, check, check, length_relocateAll, checkAll_relocate f context ih]
    cases context.arity? name with
    | none => rfl
    | some arity =>
      simp only
      split <;> rfl

/-- The values of a list that was moved are those of the list, and its error is moved like it. -/
lemma evalAll_relocate {args : List Expr}
    (each : ∀ arg ∈ args,
      (arg.relocate f).eval context = (arg.eval context).mapError (Located.relocate f)) :
    evalAll context (relocateAll f args) =
      (evalAll context args).mapError (Located.relocate f) := by
  induction args with
  | nil => rfl
  | cons arg args ih =>
    obtain ⟨first, others⟩ := List.forall_mem_cons.1 each
    rw [relocateAll, evalAll, evalAll, first, ih others, mapError_bind]
    refine bind_congr fun value => ?_
    rw [mapError_bind]
    rfl

/-- An error belongs where its node was moved, and the value is the same. -/
theorem eval_relocate (expr : Expr) :
    (expr.relocate f).eval context = (expr.eval context).mapError (Located.relocate f) := by
  induction expr with
  | number => rfl
  | unary sign operand position ih =>
    rw [relocate, eval, eval, ih, mapError_bind]
    rfl
  | binary op left right position ihLeft ihRight =>
    rw [relocate, eval, eval, ihLeft, ihRight, mapError_bind]
    refine bind_congr fun x => ?_
    rw [mapError_bind]
    refine bind_congr fun y => ?_
    cases op.apply x y <;> rfl
  | call name args position ih =>
    rw [relocate, eval, eval, evalAll_relocate f context ih]
    cases context.find? name with
    | none => rfl
    | some builtin =>
      simp only
      rw [mapError_bind]
      refine bind_congr fun values => ?_
      cases builtin.run values <;> rfl

/-- The checked value of an expression that was moved is its value, and its error is moved like it.
-/
theorem checkedEval_relocate (expr : Expr) :
    (expr.relocate f).checkedEval context =
      (expr.checkedEval context).mapError (Located.relocate f) := by
  rw [checkedEval, checkedEval, check_relocate, eval_relocate, mapError_bind]

/-- The later arguments of a call are written the same wherever they are. -/
lemma writeMoreArgs_relocate {args : List Expr}
    (each : ∀ arg ∈ args, ∀ rest, (arg.relocate f).write rest = arg.write rest)
    (rest : List Char) : writeMoreArgs (relocateAll f args) rest = writeMoreArgs args rest := by
  induction args with
  | nil => rfl
  | cons arg args ih =>
    obtain ⟨first, others⟩ := List.forall_mem_cons.1 each
    rw [relocateAll, writeMoreArgs, writeMoreArgs, first, ih others]

/-- The arguments of a call are written the same wherever they are. -/
lemma writeArgs_relocate {args : List Expr}
    (each : ∀ arg ∈ args, ∀ rest, (arg.relocate f).write rest = arg.write rest)
    (rest : List Char) : writeArgs (relocateAll f args) rest = writeArgs args rest := by
  cases args with
  | nil => rfl
  | cons arg args =>
    obtain ⟨first, others⟩ := List.forall_mem_cons.1 each
    rw [relocateAll, writeArgs, writeArgs, first, writeMoreArgs_relocate f others]

/-- An expression is written the same wherever it is. -/
lemma write_relocate (expr : Expr) (rest : List Char) :
    (expr.relocate f).write rest = expr.write rest := by
  induction expr generalizing rest with
  | number => rfl
  | unary sign operand position ih => rw [relocate, write, write, ih]
  | binary op left right position ihLeft ihRight =>
    rw [relocate, write, write, ihLeft, ihRight]
  | call name args position ih => rw [relocate, write, write, writeArgs_relocate f ih]

/-- The text of an expression shows no places. -/
theorem text_relocate (expr : Expr) : (expr.relocate f).text = expr.text := by
  rw [text, text, write_relocate]

section Unplaced
variable {tree expr : Expr}

/-- What differs in places only is checked alike. -/
lemma check_of_unplaced (same : tree.unplaced = expr.unplaced) (ok : expr.check context = .ok ()) :
    tree.check context = .ok () := by
  have alike := congrArg (check context) same
  rw [unplaced, unplaced, check_relocate, check_relocate, ok] at alike
  cases checked : tree.check context with
  | error error =>
    rw [checked] at alike
    cases alike
  | ok _ => rfl

/-- What differs in places only is written alike. -/
lemma text_of_unplaced (same : tree.unplaced = expr.unplaced) : tree.text = expr.text := by
  rw [← text_relocate (fun _ => 0) tree, ← text_relocate (fun _ => 0) expr]
  exact congrArg text same

/-- What differs in places only has the same value, or the same error at another place. -/
lemma checkedEval_of_unplaced (same : tree.unplaced = expr.unplaced) :
    (tree.checkedEval context).mapError Located.value =
      (expr.checkedEval context).mapError Located.value := by
  have forget (expr : Expr) : (expr.checkedEval context).mapError Located.value =
      (expr.unplaced.checkedEval context).mapError Located.value := by
    rw [unplaced, checkedEval_relocate]
    cases expr.checkedEval context <;> rfl
  rw [forget tree, same, ← forget expr]

end Unplaced

end Expr
end ArithExpr
