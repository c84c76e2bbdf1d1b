import ArithExpr.Proofs.Grammar.Exactness

/-!
# The depth of what is read

The levels of a derivation bound the expression that it reads, but not its depth: an operator is a
level for the operand behind it and none for the one before it, although the node of the operator
stands above both. Main statement: a limit bounds the depth of all expressions read within it only
if it is zero or one, and it always bounds the depth that is counted without the steps to left
operands (`Expr.parse_depth_le_iff`).
-/

namespace ArithExpr

/-- A number of levels for every path from the root, where the step from an operator to its left
operand takes none. -/
inductive Expr.NestedWithin : Nat → Expr → Prop where
  | number {levels value position} :
    NestedWithin (levels + 1) (.number value position)
  | unary {levels sign operand position} :
    NestedWithin levels operand →
    NestedWithin (levels + 1) (.unary sign operand position)
  | binary {levels op left right position} :
    NestedWithin (levels + 1) left →
    NestedWithin levels right →
    NestedWithin (levels + 1) (.binary op left right position)
  | call {levels name args position} :
    (∀ arg ∈ args, NestedWithin levels arg) →
    NestedWithin (levels + 1) (.call name args position)

/-- Nothing is nested within no levels at all. -/
lemma Expr.NestedWithin.ne_zero {expr} (nested : NestedWithin 0 expr) : False := by
  cases nested

/-- With one level there is a number or a call without arguments. -/
lemma Expr.NestedWithin.depth_le_one {expr} (nested : NestedWithin 1 expr) : expr.depth ≤ 1 := by
  cases nested with
  | number => exact Nat.le_refl 1
  | unary operand => exact operand.ne_zero.elim
  | binary _ right => exact right.ne_zero.elim
  | @call _ _ args _ each =>
    cases args with
    | nil => exact Nat.le_refl 1
    | cons arg args => exact (each arg List.mem_cons_self).ne_zero.elim

/-- What is derived is nested within the levels of the derivation, with one more for what stands
inside a power. -/
theorem Derivation.nestedWithin {rule : Rule} {value : rule.Value} {tokens rest}
    (d : Derivation rule value tokens rest) {levels} (room : d.cost ≤ levels)
    (before : ∀ left ∈ rule.before, left.NestedWithin levels) :
    ∀ tree ∈ rule.trees value, tree.NestedWithin (levels + spare rule) := by
  induction d generalizing levels with
  | chain first links ihFirst ihLinks =>
    obtain ⟨costFirst, costLinks⟩ := Nat.max_le.1 room
    exact ihLinks costLinks (ihFirst costFirst (List.forall_mem_nil _))
  | term d ih => exact ih room before
  | factor d ih => exact ih room before
  | done => exact before
  | link joins right more ihRight ihMore =>
    simp only [cost] at room
    cases levels with
    | zero => omega
    | succ levels =>
      -- the operator stands above both operands and takes a level from the right one only
      have roomRight : right.cost ≤ levels := by omega
      have nestedLeft := before _ List.mem_cons_self
      have nestedRight := ihRight roomRight (List.forall_mem_nil _) _ List.mem_cons_self
      exact ihMore (by omega) (List.forall_mem_singleton.2 (.binary nestedLeft nestedRight))
  | base d ih =>
    simp only [cost] at room
    cases levels with
    | zero => omega
    | succ levels => exact ih (by omega) (List.forall_mem_nil _)
  | power left right ihLeft ihRight =>
    simp only [cost] at room
    cases levels with
    | zero => omega
    | succ levels =>
      have roomLeft : left.cost ≤ levels := by omega
      have roomRight : right.cost ≤ levels := by omega
      have nestedLeft := ihLeft roomLeft (List.forall_mem_nil _) _ List.mem_cons_self
      have nestedRight := ihRight roomRight (List.forall_mem_nil _) _ List.mem_cons_self
      exact List.forall_mem_singleton.2 (.binary nestedLeft nestedRight)
  | sign _ d ih =>
    simp only [cost] at room
    cases levels with
    | zero => omega
    | succ levels =>
      have room : d.cost ≤ levels := by omega
      have inner := ih room (List.forall_mem_nil _) _ List.mem_cons_self
      exact List.forall_mem_singleton.2 (.unary inner)
  | unsigned d ih => exact ih room before
  | number => exact List.forall_mem_singleton.2 .number
  -- a parenthesis takes no level, the power that it stands in has one to spare
  | group d ih => exact ih (Nat.le_succ_of_le room) (List.forall_mem_nil _)
  | named d ih => exact ih room before
  | call d ih => exact List.forall_mem_singleton.2 (.call (ih room (List.forall_mem_nil _)))
  | noArguments => exact List.forall_mem_nil _
  | arguments first more ihFirst ihMore =>
    obtain ⟨costFirst, costMore⟩ := Nat.max_le.1 room
    exact List.forall_mem_cons.2
      ⟨ihFirst costFirst before _ List.mem_cons_self, ihMore costMore before⟩
  | lastArgument => exact List.forall_mem_nil _
  | nextArgument arg more ihArg ihMore =>
    obtain ⟨costArg, costMore⟩ := Nat.max_le.1 room
    exact List.forall_mem_cons.2
      ⟨ihArg costArg before _ List.mem_cons_self, ihMore costMore before⟩

/-- A sum of two numbers with signs in front of the first one. -/
def signedSum (signs : Nat) : List Char :=
  List.replicate signs '-' ++ ['1', '+', '1']

/-- The first operand of a sum is as deep as the signs in front of it say, and they are the only
levels that it takes. -/
lemma exists_operand_signedSum (context : Context) (signs position : Nat) :
    ∃ operand plus one value,
      (∃ d : Derivation .unary operand (⟨signedSum signs, position⟩ : Cursor).tokens.list
        [⟨.operator .add, plus⟩, ⟨.number value, one⟩], d.cost = signs) ∧
      (∃ finish, (⟨signedSum signs, position⟩ : Cursor).tokens.ending = .finish finish) ∧
      operand.depth = signs + 1 ∧ operand.WellCalled context := by
  induction signs generalizing position with
  | zero =>
    obtain ⟨value, first⟩ : ∃ value, Cursor.next ⟨signedSum 0, position⟩ =
      (.ok ⟨some (.number value), position⟩, ⟨['+', '1'], position + 1⟩) := ⟨_, rfl⟩
    obtain ⟨value', last⟩ : ∃ value, Cursor.next ⟨['1'], position + 1 + 1⟩ =
      (.ok ⟨some (.number value), position + 1 + 1⟩, ⟨[], position + 1 + 1 + 1⟩) := ⟨_, rfl⟩
    rw [Cursor.tokens_of_word first, Cursor.tokens_of_word (Cursor.next_symbol rfl _ _),
      Cursor.tokens_of_word last, Cursor.tokens_of_end rfl]
    exact ⟨_, _, _, _, ⟨.unsigned .number, rfl⟩, ⟨_, rfl⟩, rfl, .number⟩
  | succ signs ih =>
    obtain ⟨operand, plus, one, value, ⟨d, cost⟩, ending, depth, called⟩ := ih (position + 1)
    have starts : signedSum (signs + 1) = '-' :: signedSum signs := rfl
    rw [starts, Cursor.tokens_of_word (Cursor.next_symbol rfl _ _)]
    refine ⟨.unary .negate operand position, plus, one, value, ⟨.sign rfl d, ?_⟩, ending, ?_,
      .unary called⟩
    · show 1 + d.cost = signs + 1
      rw [cost, Nat.add_comm]
    · rw [Expr.depth, depth, Nat.add_comm]

namespace Expr

/-- Two levels or more are enough for an expression that is one level deeper. -/
lemma exists_parse_depth (context : Context) (levels : Nat) :
    ∃ expr, parse context (levels + 2) (String.ofList (signedSum (levels + 1))) = .ok expr ∧
      expr.depth = levels + 3 := by
  obtain ⟨operand, plus, one, value, ⟨d, cost⟩, ⟨position, finish⟩, depth, called⟩ :=
    exists_operand_signedSum context (levels + 1) 0
  have same : Tokens.ofText (String.ofList (signedSum (levels + 1))) =
      (⟨signedSum (levels + 1), 0⟩ : Cursor).tokens := by
    rw [Tokens.ofText, Cursor.start, String.toList_ofList]
  let whole : Derivation (.chain .sum) (.binary .add operand (.number value one) plus)
      (⟨signedSum (levels + 1), 0⟩ : Cursor).tokens.list [] :=
    .chain (.term (.chain (.factor (.base d)) .done))
      (.link List.mem_cons_self (.term (.chain (.factor (.base (.unsigned .number))) .done)) .done)
  have takes : whole.cost ≤ levels + 2 := by
    simp only [whole, Derivation.cost, cost]
    omega
  refine ⟨.binary .add operand (.number value one) plus, ?_, ?_⟩
  · rw [parse, same]
    exact Parser.whole_complete finish whole takes (.binary called .number)
  · rw [Expr.depth, depth]
    simp only [Expr.depth]
    omega

/-- A limit bounds the depth of what is read within it exactly if it is zero or one. It always
bounds the depth without the steps to left operands. -/
theorem parse_depth_le_iff (context : Context) (limit : Nat) :
    ((∀ text expr, parse context limit text = .ok expr → expr.depth ≤ limit) ↔ limit ≤ 1) ∧
    (∀ text expr, parse context limit text = .ok expr → expr.NestedWithin limit) := by
  have nested : ∀ text expr, parse context limit text = .ok expr → expr.NestedWithin limit := by
    intro text expr ok
    obtain ⟨d, cost⟩ := (Parser.whole_sound ok).derived
    exact d.nestedWithin cost (List.forall_mem_nil _) _ List.mem_cons_self
  refine ⟨⟨fun bounded => ?_, fun low text expr ok => ?_⟩, nested⟩
  · match limit with
    | 0 => exact Nat.zero_le 1
    | 1 => exact Nat.le_refl 1
    | levels + 2 =>
      obtain ⟨expr, ok, depth⟩ := exists_parse_depth context levels
      have := bounded _ expr ok
      omega
  · match limit, nested text expr ok with
    | 0, zero => exact zero.ne_zero.elim
    | 1, one => exact one.depth_le_one
    | levels + 2, _ => omega

/-- With two levels an expression of depth three is read. -/
theorem parse_depth_counterexample :
    ∃ expr, parse Context.empty 2 "-1+1" = .ok expr ∧ ¬ expr.depth ≤ 2 := by
  obtain ⟨expr, ok, depth⟩ := exists_parse_depth Context.empty 0
  exact ⟨expr, ok, by omega⟩

end Expr
end ArithExpr
