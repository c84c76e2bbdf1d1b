import ArithExpr.Proofs.Grammar.Composition

/-!
# How deep a limit lets an expression be

The levels of a derivation do not count the steps to left operands. In a sum or product within some
levels there are as many operators as levels behind the first one, so that the first operand may
stand that much deeper, and at every further level the same holds again. `Rule.deepest` adds this
up, and `Derivation.depth_le` says that nothing deeper is read. `deepestText` is a text that makes
use of all of it.

Main statement: the largest depth within a limit is the square of the limit and the limit, less one
(`Expr.parse_depth_le_square`).
-/

namespace ArithExpr

namespace Expr

/-- Every expression is at least one node deep. -/
lemma depth_pos (expr : Expr) : 0 < expr.depth := by
  cases expr with
  | number => exact Nat.one_pos
  | unary => exact Nat.lt_add_right _ Nat.one_pos
  | binary => exact Nat.lt_add_right _ Nat.one_pos
  | call => exact Nat.lt_add_right _ Nat.one_pos

/-- Arguments are no deeper than each of them may be. -/
lemma maxDepth_le {args : List Expr} {most : Nat} (each : ∀ arg ∈ args, arg.depth ≤ most) :
    maxDepth args ≤ most := by
  induction args with
  | nil => exact Nat.zero_le _
  | cons arg args ih =>
    obtain ⟨first, others⟩ := List.forall_mem_cons.1 each
    exact Nat.max_le.2 ⟨first, ih others⟩

end Expr

/-- The largest depth of an operand of a run within some levels. -/
def Level.deepest : Level → Nat → Nat
  | .sum, levels => levels * levels
  | .product, levels => levels * levels + 1 - levels

/-- The largest depth of what a rule reads within some levels. -/
def Rule.deepest (levels : Nat) : Rule → Nat
  | .chain level => level.deepest levels + (levels - 1)
  | .operand level => level.deepest levels
  | .links level left => max left.depth (level.deepest levels) + (levels - 1)
  | .power => Level.product.deepest levels
  | .unary => levels * levels + (levels - 1) + 1
  | .primary => levels * levels + (levels - 1) + 1
  | .call _ _ => levels * levels + (levels - 1) + 1
  | .arguments => levels * levels + (levels - 1)
  | .moreArguments => levels * levels + (levels - 1)

/-- Squares grow by the odd numbers. -/
lemma square_succ (n : Nat) : (n + 1) * (n + 1) = n * n + 2 * n + 1 := by
  simp only [Nat.add_mul, Nat.mul_add]
  omega

/-- With one level more a tree may be at least as deep. -/
lemma Level.deepest_le_succ (level : Level) (levels : Nat) :
    level.deepest levels ≤ level.deepest (levels + 1) := by
  have square := square_succ levels
  cases level with
  | sum =>
    simp only [deepest]
    omega
  | product =>
    simp only [deepest]
    omega

/-- Within a number of levels nothing deeper is read than the rule allows. -/
theorem Derivation.depth_le {rule : Rule} {value : rule.Value} {tokens rest}
    (d : Derivation rule value tokens rest) {levels} (room : d.cost ≤ levels) :
    ∀ tree ∈ rule.trees value, tree.depth ≤ rule.deepest levels := by
  induction d generalizing levels with
  | chain first links ihFirst ihLinks =>
    obtain ⟨costFirst, costLinks⟩ := Nat.max_le.1 room
    have depthFirst := ihFirst costFirst _ List.mem_cons_self
    have depthLinks := ihLinks costLinks _ List.mem_cons_self
    refine List.forall_mem_singleton.2 (depthLinks.trans ?_)
    simp only [Rule.deepest] at depthFirst ⊢
    omega
  | term d ih =>
    have pos := (Derivation.term d).operand_cost_pos
    have depth := ih room _ List.mem_cons_self
    have square := Nat.le_mul_self levels
    refine List.forall_mem_singleton.2 (depth.trans ?_)
    simp only [Rule.deepest, Level.deepest, cost] at pos room ⊢
    omega
  | factor d ih => exact ih room
  | done =>
    refine List.forall_mem_singleton.2 ?_
    simp only [Rule.deepest]
    omega
  | @link level op left right tree _ _ _ _ joins operand more ihRight ihMore =>
    simp only [cost] at room
    cases levels with
    | zero => omega
    | succ levels =>
      have pos := operand.operand_cost_pos
      have roomRight : operand.cost ≤ levels := by omega
      have roomMore : more.cost ≤ levels := by omega
      have depthRight := ihRight roomRight _ List.mem_cons_self
      have depth := ihMore roomMore _ List.mem_cons_self
      have deeper := level.deepest_le_succ levels
      refine List.forall_mem_singleton.2 (depth.trans ?_)
      -- the operator stands above what was read so far, and a level less is left for what follows
      simp only [Rule.deepest, Expr.depth] at depthRight ⊢
      omega
  | base d ih =>
    simp only [cost] at room
    cases levels with
    | zero => omega
    | succ levels =>
      have roomInner : d.cost ≤ levels := by omega
      have depth := ih roomInner _ List.mem_cons_self
      have square := square_succ levels
      refine List.forall_mem_singleton.2 (depth.trans ?_)
      simp only [Rule.deepest, Level.deepest]
      omega
  | power left right ihLeft ihRight =>
    simp only [cost] at room
    cases levels with
    | zero => omega
    | succ levels =>
      have pos : 0 < right.cost := (Derivation.factor right).operand_cost_pos
      have roomLeft : left.cost ≤ levels := by omega
      have roomRight : right.cost ≤ levels := by omega
      have depthLeft := ihLeft roomLeft _ List.mem_cons_self
      have depthRight := ihRight roomRight _ List.mem_cons_self
      have square := square_succ levels
      refine List.forall_mem_singleton.2 ?_
      simp only [Rule.deepest, Level.deepest, Expr.depth] at depthLeft depthRight ⊢
      omega
  | sign _ d ih =>
    simp only [cost] at room
    cases levels with
    | zero => omega
    | succ levels =>
      have roomInner : d.cost ≤ levels := by omega
      have depth := ih roomInner _ List.mem_cons_self
      have square := square_succ levels
      refine List.forall_mem_singleton.2 ?_
      simp only [Rule.deepest, Expr.depth] at depth ⊢
      omega
  | unsigned d ih => exact ih room
  | number => exact List.forall_mem_singleton.2 (Nat.le_add_left 1 _)
  | group d ih =>
    exact List.forall_mem_singleton.2 ((ih room _ List.mem_cons_self).trans (Nat.le_succ _))
  | named d ih => exact ih room
  | call d ih =>
    refine List.forall_mem_singleton.2 ?_
    rw [Expr.depth, Nat.add_comm]
    exact Nat.succ_le_succ (Expr.maxDepth_le (ih room))
  | noArguments => exact List.forall_mem_nil _
  | arguments first more ihFirst ihMore =>
    obtain ⟨costFirst, costMore⟩ := Nat.max_le.1 room
    exact List.forall_mem_cons.2 ⟨ihFirst costFirst _ List.mem_cons_self, ihMore costMore⟩
  | lastArgument => exact List.forall_mem_nil _
  | nextArgument arg more ihArg ihMore =>
    obtain ⟨costArg, costMore⟩ := Nat.max_le.1 room
    exact List.forall_mem_cons.2 ⟨ihArg costArg _ List.mem_cons_self, ihMore costMore⟩

/-- An operator and a one behind it, several times, in front of a text that follows them. -/
def onesBehind (op : Operator) : Nat → List Char → List Char
  | 0, rest => rest
  | count + 1, rest => op.symbol :: '1' :: onesBehind op count rest

/-- A text that takes one level more than the given number and is as deep as that allows, in front
of a text that follows it: the argument of a function is such a text with a level less, and what
stands in front of operators gets deeper by all of them. -/
def deepestText : Nat → List Char → List Char
  | 0, rest => '1' :: rest
  | levels + 1, rest =>
    "abs(".toList ++ deepestText levels (')' :: '^' :: '1' ::
      onesBehind .multiply (levels + 1) (onesBehind .add (levels + 1) rest))

/-- With two levels a call stands inside a call, each in the longest runs that are allowed there. -/
example : deepestText 2 [] = "abs(abs(1)^1*1+1)^1*1*1+1+1".toList := rfl

section Texts
variable {context : Context} {levels count : Nat} {left : Expr} {rest : List Char}

/-- The numerals and operators behind an operand do not go on with a numeral. -/
lemma ends_onesBehind (op : Operator) (count : Nat) (ends : Cut.Ends Cut.GoesOnNumeral rest) :
    Cut.Ends Cut.GoesOnNumeral (onesBehind op count rest) := by
  cases count with
  | zero => exact ends
  | succ count =>
    refine Cut.ends_cons.2 ?_
    cases op <;> decide

/-- A one is read in front of what goes on with no numeral. -/
lemma exists_reads_one (context : Context) (levels : Nat)
    (ends : Cut.Ends Cut.GoesOnNumeral rest) (position : Nat) :
    ∃ value, Cursor.Reads context levels .primary (.number value position) ⟨'1' :: rest, position⟩
      ⟨rest, position + 1⟩ := by
  have digits : Cut.Mantissa ['1'] :=
    .whole (List.cons_ne_nil _ _) (List.forall_mem_singleton.2 rfl)
  have spells : Cut.Spells ['1'] _ _ := .decimal digits rfl
  exact ⟨_, .number spells ends⟩

/-- What stands in front of operators with ones behind them gets deeper by all of them. -/
lemma exists_reads_onesBehind {level : Level} {op : Operator} (joins : op ∈ level.operators)
    (room : count < levels) (called : left.WellCalled context)
    (ends : Cut.Ends Cut.GoesOnNumeral rest) (position : Nat) :
    ∃ tree stop, Cursor.Reads context levels (.links level left) tree
        ⟨onesBehind op count rest, position⟩ ⟨rest, stop⟩ ∧
      tree.depth = left.depth + count := by
  induction count generalizing left levels position with
  | zero => exact ⟨left, position, .done called, rfl⟩
  | succ count ih =>
    obtain ⟨levels, rfl⟩ := Nat.exists_eq_add_of_lt room
    rw [Nat.add_comm (count + 1)] at room ⊢
    obtain ⟨value, one⟩ := exists_reads_one context (levels + count) (ends_onesBehind op count ends)
      (position + 1)
    have joined : (Expr.binary op left (.number value (position + 1)) position).WellCalled
        context := .binary called .number
    have fewer : count < levels + count + 1 := by omega
    obtain ⟨tree, stop, links, depth⟩ := ih fewer joined (position + 1 + 1)
    refine ⟨tree, stop, (one.operand level).link joins links, ?_⟩
    have pos := left.depth_pos
    rw [depth, Expr.depth, Expr.depth]
    omega

/-- The text that is as deep as its levels allow is read within them. -/
lemma exists_reads_deepestText (levels : Nat) (ends : Cut.Ends Cut.GoesOnNumeral rest)
    (position : Nat) :
    ∃ tree stop, Cursor.Reads Standard.context (levels + 1) (.chain .sum) tree
        ⟨deepestText levels rest, position⟩ ⟨rest, stop⟩ ∧
      tree.depth = (levels + 1) * (levels + 1) + levels := by
  induction levels generalizing rest position with
  | zero =>
    obtain ⟨value, one⟩ := exists_reads_one Standard.context 0 ends position
    exact ⟨_, _, one.sum, rfl⟩
  | succ levels ih =>
    obtain ⟨builtin, found, arity⟩ : ∃ builtin, Standard.context.find? "abs" = some builtin ∧
        builtin.arity = 1 :=
      Option.map_eq_some_iff.1 (show Standard.context.arity? "abs" = some 1 by decide +kernel)
    have isName : Expr.IsName "abs" := ⟨by decide, List.all_eq_true.1 rfl⟩
    have room : levels + 1 < levels + 2 := Nat.lt_succ_self _
    have joinsProduct : Operator.multiply ∈ Level.product.operators := by decide
    have joinsSum : Operator.add ∈ Level.sum.operators := by decide
    have endsSum := ends_onesBehind .add (levels + 1) ends
    have endsProduct := ends_onesBehind .multiply (levels + 1) endsSum
    have endsArg : Cut.Ends Cut.GoesOnNumeral (')' :: '^' :: '1' :: onesBehind .multiply
        (levels + 1) (onesBehind .add (levels + 1) rest)) := Cut.ends_cons.2 (by decide)
    obtain ⟨arg, stop, reads, depthArg⟩ := ih endsArg (position + "abs".length + 1)
    have one_arg : builtin.arity = [arg].length := arity
    have call := (reads.arguments .lastArgument).call isName found one_arg
    obtain ⟨value, one⟩ := exists_reads_one Standard.context levels endsProduct (stop + 1 + 1)
    have power := call.unsigned.power one.unsigned.base
    obtain ⟨product, stop, links, depthProduct⟩ := exists_reads_onesBehind joinsProduct room
      (power.called _ List.mem_cons_self) endsSum (stop + 1 + 1 + 1)
    have readsProduct := power.factor.chain links
    obtain ⟨sum, stop, links, depthSum⟩ := exists_reads_onesBehind joinsSum room
      (readsProduct.called _ List.mem_cons_self) ends stop
    refine ⟨sum, stop, readsProduct.term.chain links, ?_⟩
    have square := square_succ (levels + 1)
    rw [depthSum, depthProduct]
    simp only [Expr.depth, Expr.maxDepth, depthArg]
    omega

end Texts

/-- No expression that is read within a limit is deeper than the square of the limit and the limit,
less one, and within every limit but zero there is a text for an expression of this depth. -/
theorem Expr.parse_depth_le_square :
    (∀ context limit text expr, parse context limit text = .ok expr →
      expr.depth ≤ limit * limit + limit - 1) ∧
    (∀ limit, 1 ≤ limit → ∃ text expr, parse Standard.context limit text = .ok expr ∧
      expr.depth = limit * limit + limit - 1) := by
  refine ⟨fun context limit text expr ok => ?_, fun limit pos => ?_⟩
  · obtain ⟨d, cost⟩ := (Parser.whole_sound ok).derived
    have depth := d.depth_le cost _ List.mem_cons_self
    cases limit with
    | zero => exact depth
    | succ levels => exact depth
  · obtain ⟨levels, rfl⟩ := Nat.exists_eq_add_one_of_ne_zero (Nat.ne_zero_of_lt pos)
    obtain ⟨tree, stop, reads, depth⟩ := exists_reads_deepestText levels (Cut.ends_nil _) 0
    refine ⟨String.ofList (deepestText levels []), tree, parse_of_reads stop ?_, depth⟩
    rw [Cursor.start, String.toList_ofList]
    exact reads

end ArithExpr
