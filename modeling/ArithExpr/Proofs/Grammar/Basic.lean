import ArithExpr.Expr.Basic
import ArithExpr.Expr.Parser.Basic
import Mathlib.Tactic.Lemma

/-!
# The grammar of expressions

A derivation says that a rule reads a value off the front of a list of tokens and which tokens it
leaves:

```text
chain sum     := chain product (('+' | '-') chain product)*
chain product := power (('*' | '/') power)*
power         := unary ('^' power)?
unary         := ('-' | '+') unary | primary
primary       := number | name call | '(' chain sum ')'
call          := '(' arguments ')'
arguments     := (chain sum (',' chain sum)*)?
```

An operator run is grouped to the left: `links left` reads what follows the operand or the part of a
run that `left` stands for. Parentheses leave no node. A rule does not look at what it leaves, so
where it can stop is said apart: main statement, on tokens behind which it has to stop a rule reads
at most one value, at one cost (`Derivation.unique`).
-/

namespace ArithExpr

/-- The operators of a run. -/
def Level.operators : Level → List Operator
  | .sum => [.add, .subtract]
  | .product => [.multiply, .divide]

/-- The operators inside the operands of a run. -/
def Level.tighter : Level → List Operator
  | .sum => [.multiply, .divide, .power]
  | .product => [.power]

/-- No operator of a run stands inside its operands. -/
lemma Level.not_mem_tighter {level : Level} {op} (mem : op ∈ level.operators) :
    op ∉ level.tighter := by
  revert mem
  cases level <;> cases op <;> decide

/-- The operator written like a sign. -/
def Sign.operator : Sign → Operator
  | .negate => .subtract
  | .plus => .add

/-- What can be read off a list of tokens. -/
inductive Rule where
  | chain (level : Level)
  | operand (level : Level)
  | links (level : Level) (left : Expr)
  | power
  | unary
  | primary
  | call (name : String) (position : Nat)
  | arguments
  | moreArguments

namespace Rule

/-- What a rule reads: the arguments of a call, or one expression. -/
abbrev Value : Rule → Type
  | .arguments => List Expr
  | .moreArguments => List Expr
  | _ => Expr

/-- The expressions that a rule has read. -/
def trees : (rule : Rule) → rule.Value → List Expr
  | .chain _, tree => [tree]
  | .operand _, tree => [tree]
  | .links _ _, tree => [tree]
  | .power, tree => [tree]
  | .unary, tree => [tree]
  | .primary, tree => [tree]
  | .call _ _, tree => [tree]
  | .arguments, trees => trees
  | .moreArguments, trees => trees

/-- The part of a run that a rule goes on with. -/
def before : Rule → List Expr
  | .links _ left => [left]
  | _ => []

/-- The operators that continue what a rule has read. -/
def operators : Rule → List Operator
  | .chain level => level.operators ++ level.tighter
  | .operand level => level.tighter
  | .links level _ => level.operators ++ level.tighter
  | .power => [.power]
  | _ => []

/-- No operator at the front of the tokens continues what a rule has read. -/
def Stops (rule : Rule) : List Token → Prop
  | [] => True
  | token :: _ => ∀ op ∈ rule.operators, token.value ≠ .operator op

/-- The parenthesis that closes a call stands behind its arguments. -/
def Closes : Rule → List Token → Prop
  | .arguments, rest => ∃ position tail, rest = ⟨.closeParen, position⟩ :: tail
  | .moreArguments, rest => ∃ position tail, rest = ⟨.closeParen, position⟩ :: tail
  | _, _ => True

/-- A rule that no operator goes on with stops in front of everything. -/
lemma stops_of_nil {rule : Rule} (alone : rule.operators = []) (rest : List Token) :
    rule.Stops rest := by
  cases rest with
  | nil => trivial
  | cons token tail =>
    intro op mem
    rw [alone] at mem
    cases mem

/-- Every rule stops in front of a closing parenthesis. -/
lemma stops_closeParen (rule : Rule) (position : Nat) (tail : List Token) :
    rule.Stops (⟨.closeParen, position⟩ :: tail) :=
  fun _ _ => nofun

/-- Every rule stops in front of a comma. -/
lemma stops_comma (rule : Rule) (position : Nat) (tail : List Token) :
    rule.Stops (⟨.comma, position⟩ :: tail) :=
  fun _ _ => nofun

/-- A run stops only where its operands stop. -/
lemma Stops.operand {level rest} (stops : (Rule.chain level).Stops rest) :
    (Rule.operand level).Stops rest := by
  cases rest with
  | nil => trivial
  | cons token tail => exact fun op mem => stops op (List.mem_append_right _ mem)

end Rule

/-- A rule reads a value off the front of a list of tokens and leaves the others. -/
inductive Derivation : (rule : Rule) → rule.Value → List Token → List Token → Type where
  | chain {level first tree tokens middle rest} :
    Derivation (.operand level) first tokens middle →
    Derivation (.links level first) tree middle rest →
    Derivation (.chain level) tree tokens rest
  | term {tree tokens rest} :
    Derivation (.chain .product) tree tokens rest →
    Derivation (.operand .sum) tree tokens rest
  | factor {tree tokens rest} :
    Derivation .power tree tokens rest →
    Derivation (.operand .product) tree tokens rest
  | done {level left tokens} :
    Derivation (.links level left) left tokens tokens
  | link {level op left right tree position tokens middle rest} :
    op ∈ level.operators →
    Derivation (.operand level) right tokens middle →
    Derivation (.links level (.binary op left right position)) tree middle rest →
    Derivation (.links level left) tree (⟨.operator op, position⟩ :: tokens) rest
  | base {tree tokens rest} :
    Derivation .unary tree tokens rest →
    Derivation .power tree tokens rest
  | power {left right position tokens middle rest} :
    Derivation .unary left tokens (⟨.operator .power, position⟩ :: middle) →
    Derivation .power right middle rest →
    Derivation .power (.binary .power left right position) tokens rest
  | sign {sign op operand position tokens rest} :
    sign.operator = op →
    Derivation .unary operand tokens rest →
    Derivation .unary (.unary sign operand position) (⟨.operator op, position⟩ :: tokens) rest
  | unsigned {tree tokens rest} :
    Derivation .primary tree tokens rest →
    Derivation .unary tree tokens rest
  | number {value position rest} :
    Derivation .primary (.number value position) (⟨.number value, position⟩ :: rest) rest
  | group {tree opened closed tokens rest} :
    Derivation (.chain .sum) tree tokens (⟨.closeParen, closed⟩ :: rest) →
    Derivation .primary tree (⟨.openParen, opened⟩ :: tokens) rest
  | named {name position tree tokens rest} :
    Derivation (.call name position) tree tokens rest →
    Derivation .primary tree (⟨.name name, position⟩ :: tokens) rest
  | call {name position args opened closed tokens rest} :
    Derivation .arguments args tokens (⟨.closeParen, closed⟩ :: rest) →
    Derivation (.call name position) (.call name args position)
      (⟨.openParen, opened⟩ :: tokens) rest
  | noArguments {tokens} :
    Derivation .arguments ([] : List Expr) tokens tokens
  | arguments {first more tokens middle rest} :
    Derivation (.chain .sum) first tokens middle →
    Derivation .moreArguments more middle rest →
    Derivation .arguments (first :: more : List Expr) tokens rest
  | lastArgument {tokens} :
    Derivation .moreArguments ([] : List Expr) tokens tokens
  | nextArgument {arg more position tokens middle rest} :
    Derivation (.chain .sum) arg tokens middle →
    Derivation .moreArguments more middle rest →
    Derivation .moreArguments (arg :: more : List Expr) (⟨.comma, position⟩ :: tokens) rest

namespace Derivation

/-- The levels that a derivation takes: every power and every operand of a sign is one level deeper
than what it stands in, and every further operand of a run one level deeper than the one before. -/
def cost : {rule : Rule} → {value : rule.Value} → {tokens rest : List Token} →
    Derivation rule value tokens rest → Nat
  | _, _, _, _, chain first links => max first.cost links.cost
  | _, _, _, _, term d => d.cost
  | _, _, _, _, factor d => d.cost
  | _, _, _, _, done => 0
  | _, _, _, _, link _ right more => 1 + max right.cost more.cost
  | _, _, _, _, base d => 1 + d.cost
  | _, _, _, _, power left right => 1 + max left.cost right.cost
  | _, _, _, _, sign _ d => 1 + d.cost
  | _, _, _, _, unsigned d => d.cost
  | _, _, _, _, number => 0
  | _, _, _, _, group d => d.cost
  | _, _, _, _, named d => d.cost
  | _, _, _, _, call d => d.cost
  | _, _, _, _, noArguments => 0
  | _, _, _, _, arguments first more => max first.cost more.cost
  | _, _, _, _, lastArgument => 0
  | _, _, _, _, nextArgument arg more => max arg.cost more.cost

/-- An operand takes at least one level. -/
lemma operand_cost_pos {level tree tokens rest}
    (d : Derivation (.operand level) tree tokens rest) : 0 < d.cost := by
  have power_cost_pos {tree tokens rest} (d : Derivation .power tree tokens rest) :
      0 < d.cost := by
    cases d with
    | base d => exact Nat.lt_add_right _ Nat.one_pos
    | power left right => exact Nat.lt_add_right _ Nat.one_pos
  cases d with
  | factor d => exact power_cost_pos d
  | term d =>
    cases d with
    | chain first links =>
      cases first with
      | factor first => exact Nat.lt_of_lt_of_le (power_cost_pos first) (Nat.le_max_left _ _)

/-- The tokens that a rule takes beyond those for its own levels: the level of a power goes with the
token that its base starts with. -/
def spare : Rule → Nat
  | .unary => 1
  | .primary => 1
  | .call _ _ => 1
  | _ => 0

/-- A derivation takes a token for each of its levels. -/
lemma cost_le {rule : Rule} {value : rule.Value} {tokens rest}
    (d : Derivation rule value tokens rest) :
    d.cost + spare rule + rest.length ≤ tokens.length := by
  induction d <;> simp only [cost, spare, List.length_cons] at * <;> omega

/-- A rule takes the tokens that it reads alike in front of all others, at the same cost. -/
lemma exists_taken {rule : Rule} {value : rule.Value} {tokens rest}
    (d : Derivation rule value tokens rest) :
    ∃ taken, tokens = taken ++ rest ∧
      ∀ behind, ∃ d' : Derivation rule value (taken ++ behind) behind, d'.cost = d.cost := by
  induction d with
  | chain first links ihFirst ihLinks =>
    obtain ⟨takenFirst, rfl, first'⟩ := ihFirst
    obtain ⟨takenLinks, rfl, links'⟩ := ihLinks
    refine ⟨takenFirst ++ takenLinks, (List.append_assoc _ _ _).symm, fun behind => ?_⟩
    obtain ⟨dFirst, costFirst⟩ := first' (takenLinks ++ behind)
    obtain ⟨dLinks, costLinks⟩ := links' behind
    rw [List.append_assoc]
    exact ⟨.chain dFirst dLinks, by rw [cost, cost, costFirst, costLinks]⟩
  | term d ih =>
    obtain ⟨taken, rfl, d'⟩ := ih
    exact ⟨taken, rfl, fun behind => (d' behind).imp' .term fun _ => id⟩
  | factor d ih =>
    obtain ⟨taken, rfl, d'⟩ := ih
    exact ⟨taken, rfl, fun behind => (d' behind).imp' .factor fun _ => id⟩
  | done => exact ⟨[], rfl, fun _ => ⟨.done, rfl⟩⟩
  | link joins right more ihRight ihMore =>
    obtain ⟨takenRight, rfl, right'⟩ := ihRight
    obtain ⟨takenMore, rfl, more'⟩ := ihMore
    refine ⟨_ :: (takenRight ++ takenMore), by rw [List.cons_append, List.append_assoc],
      fun behind => ?_⟩
    obtain ⟨dRight, costRight⟩ := right' (takenMore ++ behind)
    obtain ⟨dMore, costMore⟩ := more' behind
    rw [List.cons_append, List.append_assoc]
    exact ⟨.link joins dRight dMore, by rw [cost, cost, costRight, costMore]⟩
  | base d ih =>
    obtain ⟨taken, rfl, d'⟩ := ih
    exact ⟨taken, rfl, fun behind => (d' behind).imp' .base fun _ same => by rw [cost, cost, same]⟩
  | power left right ihLeft ihRight =>
    obtain ⟨takenLeft, rfl, left'⟩ := ihLeft
    obtain ⟨takenRight, rfl, right'⟩ := ihRight
    refine ⟨takenLeft ++ _ :: takenRight, by rw [List.append_assoc, List.cons_append],
      fun behind => ?_⟩
    obtain ⟨dLeft, costLeft⟩ := left' (_ :: (takenRight ++ behind))
    obtain ⟨dRight, costRight⟩ := right' behind
    rw [List.append_assoc, List.cons_append]
    exact ⟨.power dLeft dRight, by rw [cost, cost, costLeft, costRight]⟩
  | sign same d ih =>
    obtain ⟨taken, rfl, d'⟩ := ih
    exact ⟨_ :: taken, rfl,
      fun behind => (d' behind).imp' (.sign same) fun _ same => by rw [cost, cost, same]⟩
  | unsigned d ih =>
    obtain ⟨taken, rfl, d'⟩ := ih
    exact ⟨taken, rfl, fun behind => (d' behind).imp' .unsigned fun _ => id⟩
  | number => exact ⟨[_], rfl, fun _ => ⟨.number, rfl⟩⟩
  | group d ih =>
    obtain ⟨taken, rfl, d'⟩ := ih
    refine ⟨_ :: (taken ++ [_]), by rw [List.cons_append, List.append_assoc]; rfl, fun behind => ?_⟩
    rw [List.cons_append, List.append_assoc]
    exact (d' (_ :: behind)).imp' .group fun _ => id
  | named d ih =>
    obtain ⟨taken, rfl, d'⟩ := ih
    exact ⟨_ :: taken, rfl, fun behind => (d' behind).imp' .named fun _ => id⟩
  | call d ih =>
    obtain ⟨taken, rfl, d'⟩ := ih
    refine ⟨_ :: (taken ++ [_]), by rw [List.cons_append, List.append_assoc]; rfl, fun behind => ?_⟩
    rw [List.cons_append, List.append_assoc]
    exact (d' (_ :: behind)).imp' .call fun _ => id
  | noArguments => exact ⟨[], rfl, fun _ => ⟨.noArguments, rfl⟩⟩
  | arguments first more ihFirst ihMore =>
    obtain ⟨takenFirst, rfl, first'⟩ := ihFirst
    obtain ⟨takenMore, rfl, more'⟩ := ihMore
    refine ⟨takenFirst ++ takenMore, (List.append_assoc _ _ _).symm, fun behind => ?_⟩
    obtain ⟨dFirst, costFirst⟩ := first' (takenMore ++ behind)
    obtain ⟨dMore, costMore⟩ := more' behind
    rw [List.append_assoc]
    exact ⟨.arguments dFirst dMore, by rw [cost, cost, costFirst, costMore]⟩
  | lastArgument => exact ⟨[], rfl, fun _ => ⟨.lastArgument, rfl⟩⟩
  | nextArgument arg more ihArg ihMore =>
    obtain ⟨takenArg, rfl, arg'⟩ := ihArg
    obtain ⟨takenMore, rfl, more'⟩ := ihMore
    refine ⟨_ :: (takenArg ++ takenMore), by rw [List.cons_append, List.append_assoc],
      fun behind => ?_⟩
    obtain ⟨dArg, costArg⟩ := arg' (takenMore ++ behind)
    obtain ⟨dMore, costMore⟩ := more' behind
    rw [List.cons_append, List.append_assoc]
    exact ⟨.nextArgument dArg dMore, by rw [cost, cost, costArg, costMore]⟩

/-- What is read as an expression does not start with a closing parenthesis. -/
lemma ne_closeParen {rule : Rule} {value : rule.Value} {tokens rest}
    (d : Derivation rule value tokens rest) (position : Nat) (tail : List Token)
    (starts : tokens = ⟨.closeParen, position⟩ :: tail) :
    match rule with
    | .links _ _ => True
    | .arguments => value = ([] : List Expr)
    | .moreArguments => True
    | _ => False := by
  induction d with
  | chain _ _ ih => exact ih starts
  | term _ ih => exact ih starts
  | factor _ ih => exact ih starts
  | base _ ih => exact ih starts
  | power _ _ ih => exact ih starts
  | unsigned _ ih => exact ih starts
  | arguments _ _ ih => exact (ih starts).elim
  | noArguments => rfl
  | done => trivial
  | link => trivial
  | lastArgument => trivial
  | nextArgument => trivial
  | _ => cases starts

/-- An operand stops at what follows it in a run. -/
lemma operand_stops {level left tree tokens rest}
    (links : Derivation (.links level left) tree tokens rest)
    (stops : (Rule.chain level).Stops rest) : (Rule.operand level).Stops tokens := by
  cases links with
  | done => exact stops.operand
  | link joins _ _ =>
    intro op mem same
    cases same
    exact Level.not_mem_tighter joins mem

/-- An argument stops at what follows it in a call. -/
lemma argument_stops {args tokens rest} (more : Derivation .moreArguments args tokens rest)
    (closes : Rule.moreArguments.Closes rest) : (Rule.chain .sum).Stops tokens := by
  cases more with
  | lastArgument =>
    obtain ⟨position, tail, rfl⟩ := closes
    exact Rule.stops_closeParen _ _ _
  | nextArgument _ _ => exact Rule.stops_comma _ _ _

/-- Where a rule has to stop it reads one value, leaves the same tokens and takes the same levels,
however it is derived. -/
theorem unique {rule : Rule} {value value' : rule.Value} {tokens rest rest'}
    (d : Derivation rule value tokens rest) (d' : Derivation rule value' tokens rest')
    (stops : rule.Stops rest) (stops' : rule.Stops rest')
    (closes : rule.Closes rest) (closes' : rule.Closes rest') :
    value = value' ∧ rest = rest' ∧ d.cost = d'.cost := by
  induction d generalizing rest' with
  | chain first links ihFirst ihLinks =>
    cases d' with
    | chain first' links' =>
      obtain ⟨rfl, rfl, costFirst⟩ := ihFirst first' (operand_stops links stops)
        (operand_stops links' stops') trivial trivial
      obtain ⟨rfl, rfl, costLinks⟩ := ihLinks links' stops stops' trivial trivial
      exact ⟨rfl, rfl, by rw [cost, cost, costFirst, costLinks]⟩
  | term d ih =>
    cases d' with
    | term d' => exact ih d' stops stops' trivial trivial
  | factor d ih =>
    cases d' with
    | factor d' => exact ih d' stops stops' trivial trivial
  | done =>
    cases d' with
    | done => exact ⟨rfl, rfl, rfl⟩
    -- one derivation stops in front of the operator with which the other one goes on
    | link joins' _ _ => exact absurd rfl (stops _ (List.mem_append_left _ joins'))
  | link joins right more ihRight ihMore =>
    cases d' with
    | done => exact absurd rfl (stops' _ (List.mem_append_left _ joins))
    | link _ right' more' =>
      obtain ⟨rfl, rfl, costRight⟩ := ihRight right' (operand_stops more stops)
        (operand_stops more' stops') trivial trivial
      obtain ⟨rfl, rfl, costMore⟩ := ihMore more' stops stops' trivial trivial
      exact ⟨rfl, rfl, by rw [cost, cost, costRight, costMore]⟩
  | base d ih =>
    cases d' with
    | base d' =>
      obtain ⟨rfl, rfl, costs⟩ := ih d' (Rule.stops_of_nil rfl _) (Rule.stops_of_nil rfl _)
        trivial trivial
      exact ⟨rfl, rfl, by rw [cost, cost, costs]⟩
    -- a base stops everywhere, so both read the same one, and then only one may stop
    | power left' _ =>
      obtain ⟨-, rfl, -⟩ := ih left' (Rule.stops_of_nil rfl _) (Rule.stops_of_nil rfl _)
        trivial trivial
      exact absurd rfl (stops _ List.mem_cons_self)
  | power left right ihLeft ihRight =>
    cases d' with
    | base d' =>
      obtain ⟨-, rfl, -⟩ := ihLeft d' (Rule.stops_of_nil rfl _) (Rule.stops_of_nil rfl _)
        trivial trivial
      exact absurd rfl (stops' _ List.mem_cons_self)
    | power left' right' =>
      obtain ⟨rfl, same, costLeft⟩ := ihLeft left' (Rule.stops_of_nil rfl _)
        (Rule.stops_of_nil rfl _) trivial trivial
      cases same
      obtain ⟨rfl, rfl, costRight⟩ := ihRight right' stops stops' trivial trivial
      exact ⟨rfl, rfl, by rw [cost, cost, costLeft, costRight]⟩
  | @sign sign _ _ _ _ _ same d ih =>
    cases d' with
    | @sign sign' _ _ _ _ _ same' d' =>
      obtain ⟨rfl, rfl, costs⟩ := ih d' stops stops' trivial trivial
      obtain rfl : sign = sign' := by
        rw [← same'] at same
        revert same
        cases sign <;> cases sign' <;> decide
      exact ⟨rfl, rfl, by rw [cost, cost, costs]⟩
    | unsigned d' => cases d'
  | unsigned d ih =>
    cases d' with
    | sign _ _ => cases d
    | unsigned d' => exact ih d' stops stops' trivial trivial
  | number =>
    cases d' with
    | number => exact ⟨rfl, rfl, rfl⟩
  | group d ih =>
    cases d' with
    | group d' =>
      obtain ⟨rfl, same, costs⟩ := ih d' (Rule.stops_closeParen _ _ _)
        (Rule.stops_closeParen _ _ _) trivial trivial
      cases same
      exact ⟨rfl, rfl, costs⟩
  | named d ih =>
    cases d' with
    | named d' => exact ih d' stops stops' trivial trivial
  | call d ih =>
    cases d' with
    | call d' =>
      obtain ⟨rfl, same, costs⟩ := ih d' (Rule.stops_of_nil rfl _) (Rule.stops_of_nil rfl _)
        ⟨_, _, rfl⟩ ⟨_, _, rfl⟩
      cases same
      exact ⟨rfl, rfl, costs⟩
  | noArguments =>
    cases d' with
    | noArguments => exact ⟨rfl, rfl, rfl⟩
    -- the parenthesis that closes the call starts no expression
    | arguments first' _ =>
      obtain ⟨position, tail, starts⟩ := closes
      exact (first'.ne_closeParen position tail starts).elim
  | arguments first more ihFirst ihMore =>
    cases d' with
    | noArguments =>
      obtain ⟨position, tail, starts⟩ := closes'
      exact (first.ne_closeParen position tail starts).elim
    | arguments first' more' =>
      obtain ⟨rfl, rfl, costFirst⟩ := ihFirst first' (argument_stops more closes)
        (argument_stops more' closes') trivial trivial
      obtain ⟨rfl, rfl, costMore⟩ := ihMore more' stops stops' closes closes'
      exact ⟨rfl, rfl, by rw [cost, cost, costFirst, costMore]⟩
  | lastArgument =>
    cases d' with
    | lastArgument => exact ⟨rfl, rfl, rfl⟩
    | nextArgument _ _ =>
      obtain ⟨position, tail, starts⟩ := closes
      cases starts
  | nextArgument arg more ihArg ihMore =>
    cases d' with
    | lastArgument =>
      obtain ⟨position, tail, starts⟩ := closes'
      cases starts
    | nextArgument arg' more' =>
      obtain ⟨rfl, rfl, costArg⟩ := ihArg arg' (argument_stops more closes)
        (argument_stops more' closes') trivial trivial
      obtain ⟨rfl, rfl, costMore⟩ := ihMore more' stops stops' closes closes'
      exact ⟨rfl, rfl, by rw [cost, cost, costArg, costMore]⟩

end Derivation
end ArithExpr
