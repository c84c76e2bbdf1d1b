import ArithExpr.Proofs.Expr.Calls
import ArithExpr.Proofs.Grammar.Reading

/-!
# What the parser reads is derived

A rule of the parser that succeeds has read a value of the grammar: `Parser.Reads` says so with all
that the rules around it need, and has one lemma for each rule of the grammar. Main statement:
whatever `Parser.read` answers for is read in this sense (`Parser.read_sound`).
-/

namespace ArithExpr

/-- A word is an operator of a level if it is one of those. -/
lemma Level.operator?_eq_some {level : Level} {lexeme op} :
    level.operator? lexeme = some op ↔ lexeme = .operator op ∧ op ∈ level.operators := by
  cases lexeme with
  | operator other => cases level <;> cases other <;> cases op <;> decide
  | _ => cases level <;> simp [operator?]

/-- A word is no operator of a level if it is none of those. -/
lemma Level.operator?_eq_none {level : Level} {lexeme} :
    level.operator? lexeme = none ↔ ∀ op ∈ level.operators, lexeme ≠ .operator op := by
  rw [Option.eq_none_iff_forall_ne_some]
  refine forall_congr' fun op => ?_
  rw [Ne, operator?_eq_some, and_comm, not_and]

/-- A word is a sign if it is the operator written like it. -/
lemma Lexeme.sign?_eq_some {lexeme : Lexeme} {sign} :
    lexeme.sign? = some sign ↔ lexeme = .operator sign.operator := by
  cases lexeme with
  | operator op => cases op <;> cases sign <;> decide
  | _ => simp [sign?, operator?]

namespace Parser

/-- Where a parenthesis is closed it is the token ahead. -/
lemma close_eq_ok {p : Parser} {opened tokens rest} (ok : p.close opened tokens = .ok rest) :
    ∃ position, tokens = ⟨.closeParen, position⟩ :: rest ∧ p.reach rest = .ok () := by
  rw [close] at ok
  unfold closing at ok
  split at ok
  next => cases ok
  next position tail =>
    cases reached : p.reach tail with
    | error error => simp [reached, map_eq_bind] at ok
    | ok _ =>
      simp only [reached, map_eq_bind, ok_bind, Except.ok.injEq] at ok
      subst ok
      exact ⟨position, rfl, reached⟩
  next => cases ok

/-- What a rule reads within a number of levels: it is derived, its calls are right, and where it
ends it stops and the text has no error. -/
structure Reads (p : Parser) (rule : Rule) (room : Nat) (value : rule.Value)
    (tokens rest : List Token) : Prop where
  derived : ∃ d : Derivation rule value tokens rest, d.cost ≤ room
  called : ∀ tree ∈ rule.trees value, tree.WellCalled p.context
  stops : rule.Stops rest
  reached : p.reach rest = .ok ()

/-- What the rules are used with: the part of a run that was read so far has right calls and was
read up to where its last operand stops. -/
def Ready (p : Parser) : Rule → List Token → Prop
  | .links level left, tokens => left.WellCalled p.context ∧ (Rule.operand level).Stops tokens
  | _, _ => True

namespace Reads
variable {p : Parser} {room : Nat} {tokens middle rest : List Token}

/-- A run goes on where its operand stops. -/
lemma ready {level left} (reads : p.Reads (.operand level) room left tokens rest) :
    p.Ready (.links level left) rest :=
  ⟨reads.called _ List.mem_cons_self, reads.stops⟩

/-- An operand and what follows it in its run. -/
lemma chain {level first tree} (operand : p.Reads (.operand level) room first tokens middle)
    (links : p.Reads (.links level first) room tree middle rest) :
    p.Reads (.chain level) room tree tokens rest := by
  obtain ⟨dOperand, costOperand⟩ := operand.derived
  obtain ⟨dLinks, costLinks⟩ := links.derived
  exact ⟨⟨.chain dOperand dLinks, Nat.max_le.2 ⟨costOperand, costLinks⟩⟩, links.called,
    links.stops, links.reached⟩

/-- A run ends in front of what is none of its operators. -/
lemma done {level left} (ready : p.Ready (.links level left) rest)
    (stops : (Rule.links level left).Stops rest) (reached : p.reach rest = .ok ()) :
    p.Reads (.links level left) room left rest rest :=
  ⟨⟨.done, Nat.zero_le _⟩, List.forall_mem_singleton.2 ready.1, stops, reached⟩

/-- A run goes on with an operator and an operand, one level deeper. -/
lemma link {level left right tree op token} (joins : level.operator? token.value = some op)
    (operand : p.Reads (.operand level) (room - 1) right tokens middle)
    (links : p.Reads (.links level (.binary op left right token.position)) (room - 1) tree
      middle rest) :
    p.Reads (.links level left) room tree (token :: tokens) rest := by
  obtain ⟨dOperand, costOperand⟩ := operand.derived
  obtain ⟨dLinks, costLinks⟩ := links.derived
  obtain ⟨lexeme, position⟩ := token
  obtain ⟨rfl, mem⟩ := Level.operator?_eq_some.1 joins
  refine ⟨⟨.link mem dOperand dLinks, ?_⟩, links.called, links.stops, links.reached⟩
  -- the operand takes a level, so one was left
  have pos := dOperand.operand_cost_pos
  simp only [Derivation.cost]
  omega

/-- A base alone, one level deeper. -/
lemma base {tree} (base : p.Reads .unary room tree tokens rest) (stops : Rule.power.Stops rest) :
    p.Reads .power (room + 1) tree tokens rest := by
  obtain ⟨d, cost⟩ := base.derived
  refine ⟨⟨.base d, ?_⟩, base.called, stops, base.reached⟩
  simp only [Derivation.cost]
  omega

/-- A base and its exponent, which may be a power again. -/
lemma power {left right position}
    (base : p.Reads .unary room left tokens (⟨.operator .power, position⟩ :: middle))
    (exponent : p.Reads .power room right middle rest) :
    p.Reads .power (room + 1) (.binary .power left right position) tokens rest := by
  obtain ⟨dBase, costBase⟩ := base.derived
  obtain ⟨dExponent, costExponent⟩ := exponent.derived
  refine ⟨⟨.power dBase dExponent, ?_⟩, ?_, exponent.stops, exponent.reached⟩
  · simp only [Derivation.cost]
    omega
  · exact List.forall_mem_singleton.2
      (.binary (base.called _ List.mem_cons_self) (exponent.called _ List.mem_cons_self))

/-- A sign in front of what it applies to. -/
lemma sign {sign operand token} (signed : token.value.sign? = some sign)
    (reads : p.Reads .unary room operand tokens rest) :
    p.Reads .unary (room + 1) (.unary sign operand token.position) (token :: tokens) rest := by
  obtain ⟨d, cost⟩ := reads.derived
  obtain ⟨lexeme, position⟩ := token
  obtain rfl := Lexeme.sign?_eq_some.1 signed
  refine ⟨⟨.sign rfl d, ?_⟩, ?_, reads.stops, reads.reached⟩
  · simp only [Derivation.cost]
    omega
  · exact List.forall_mem_singleton.2 (.unary (reads.called _ List.mem_cons_self))

/-- A sum in parentheses. -/
lemma group {tree opened closed}
    (inner : p.Reads (.chain .sum) room tree tokens (⟨.closeParen, closed⟩ :: rest))
    (reached : p.reach rest = .ok ()) :
    p.Reads .primary room tree (⟨.openParen, opened⟩ :: tokens) rest := by
  obtain ⟨d, cost⟩ := inner.derived
  exact ⟨⟨.group d, cost⟩, inner.called, Rule.stops_of_nil rfl _, reached⟩

/-- A call with as many arguments as its function has. -/
lemma call {name position args opened closed}
    (known : p.context.arity? name = some args.length)
    (inner : p.Reads .arguments room args tokens (⟨.closeParen, closed⟩ :: rest))
    (reached : p.reach rest = .ok ()) :
    p.Reads (.call name position) room (.call name args position)
      (⟨.openParen, opened⟩ :: tokens) rest := by
  obtain ⟨d, cost⟩ := inner.derived
  obtain ⟨builtin, found, arity⟩ := Option.map_eq_some_iff.1 known
  exact ⟨⟨.call d, cost⟩, List.forall_mem_singleton.2 (.call found arity inner.called),
    Rule.stops_of_nil rfl _, reached⟩

/-- The first argument and those that follow it. -/
lemma arguments {first more} (head : p.Reads (.chain .sum) room first tokens middle)
    (tail : p.Reads .moreArguments room more middle rest) :
    p.Reads .arguments room (first :: more : List Expr) tokens rest := by
  obtain ⟨dHead, costHead⟩ := head.derived
  obtain ⟨dTail, costTail⟩ := tail.derived
  exact ⟨⟨.arguments dHead dTail, Nat.max_le.2 ⟨costHead, costTail⟩⟩,
    List.forall_mem_cons.2 ⟨head.called _ List.mem_cons_self, tail.called⟩,
    Rule.stops_of_nil rfl _, tail.reached⟩

/-- A comma, an argument, and those that follow it. -/
lemma nextArgument {arg more position} (head : p.Reads (.chain .sum) room arg tokens middle)
    (tail : p.Reads .moreArguments room more middle rest) :
    p.Reads .moreArguments room (arg :: more : List Expr) (⟨.comma, position⟩ :: tokens) rest := by
  obtain ⟨dHead, costHead⟩ := head.derived
  obtain ⟨dTail, costTail⟩ := tail.derived
  exact ⟨⟨.nextArgument dHead dTail, Nat.max_le.2 ⟨costHead, costTail⟩⟩,
    List.forall_mem_cons.2 ⟨head.called _ List.mem_cons_self, tail.called⟩,
    Rule.stops_of_nil rfl _, tail.reached⟩

end Reads

/-- What a rule reads is derived. -/
theorem read_sound {p : Parser} {rule : Rule} {room : Nat} {tokens : List Token}
    {value : rule.Value} {rest} (ready : p.Ready rule tokens) (reached : p.reach tokens = .ok ())
    (ok : p.read rule room tokens = .ok (value, rest)) : p.Reads rule room value tokens rest := by
  induction rule, room, tokens using induct (p := p) generalizing rest with
  | chain level room tokens ihFirst ihLinks =>
    rw [read_chain, bind_eq_ok_iff] at ok
    obtain ⟨⟨first, middle⟩, okFirst, okLinks⟩ := ok
    have operand := ihFirst trivial reached okFirst
    exact .chain operand (ihLinks first middle okFirst operand.ready operand.reached okLinks)
  | term room tokens ih =>
    rw [read_operand_sum] at ok
    obtain ⟨⟨d, cost⟩, called, stops, reached⟩ := ih trivial reached ok
    exact ⟨⟨.term d, cost⟩, called, stops, reached⟩
  | factor room tokens ih =>
    rw [read_operand_product] at ok
    obtain ⟨⟨d, cost⟩, called, stops, reached⟩ := ih trivial reached ok
    exact ⟨⟨.factor d, cost⟩, called, stops, reached⟩
  | linksNil level left room =>
    rw [read_links_nil] at ok
    cases ok
    exact .done ready trivial reached
  | linksNone level left room token tail ends =>
    rw [read_links_none _ _ _ _ ends] at ok
    cases ok
    refine .done ready (fun op mem => ?_) reached
    -- the operators of the run and those inside its operands
    obtain mem | mem := List.mem_append.1 mem
    · exact Level.operator?_eq_none.1 ends op mem
    · exact ready.2 op mem
  | linksSome level left room token tail op joins ihRight ihMore =>
    simp only [read_links_some _ _ _ _ joins, bind_eq_ok_iff] at ok
    obtain ⟨_, reachedTail, ⟨right, middle⟩, okRight, okMore⟩ := ok
    have operand := ihRight trivial reachedTail okRight
    have called : (Expr.binary op left right token.position).WellCalled p.context :=
      .binary ready.1 operand.ready.1
    exact .link joins operand
      (ihMore right middle okRight ⟨called, operand.stops⟩ operand.reached okMore)
  | powerZero tokens =>
    rw [read_power_zero] at ok
    cases ok
  | powerSucc room tokens ihBase ihExponent =>
    rw [read_power_succ, bind_eq_ok_iff] at ok
    obtain ⟨⟨base, middle⟩, okBase, ok⟩ := ok
    have readsBase := ihBase trivial reached okBase
    -- behind the base there is the power operator and an exponent, or the power ends
    simp only at ok
    unfold exponent at ok
    split at ok
    next position tail =>
      simp only [bind_eq_ok_iff] at ok
      obtain ⟨_, reachedTail, ⟨right, behind⟩, okRight, eq⟩ := ok
      cases eq
      exact .power readsBase (ihExponent base position tail okBase trivial reachedTail okRight)
    next other =>
      cases ok
      refine .base readsBase ?_
      cases rest with
      | nil => trivial
      | cons token tail =>
        obtain ⟨lexeme, position⟩ := token
        intro op mem same
        cases List.mem_singleton.1 mem
        cases same
        exact other position tail rfl
  | unaryNil room ih =>
    rw [read_unary_nil, read_primary_nil] at ok
    cases ok
  | unaryNone room token tail unsigned ih =>
    rw [read_unary_none _ _ _ unsigned] at ok
    obtain ⟨⟨d, cost⟩, called, stops, reached⟩ := ih trivial reached ok
    exact ⟨⟨.unsigned d, cost⟩, called, stops, reached⟩
  | unarySome room token tail sign signed ih =>
    rw [read_unary_some _ _ _ signed, bind_eq_ok_iff] at ok
    obtain ⟨_, reachedTail, ok⟩ := ok
    cases room with
    | zero => cases ok
    | succ room =>
      rw [bind_eq_ok_iff] at ok
      obtain ⟨⟨operand, behind⟩, okOperand, eq⟩ := ok
      cases eq
      exact .sign signed (ih room trivial reachedTail okOperand)
  | primaryNil room =>
    rw [read_primary_nil] at ok
    cases ok
  | primaryNumber room number position tail =>
    rw [read_primary_number, bind_eq_ok_iff] at ok
    obtain ⟨_, reached, eq⟩ := ok
    cases eq
    exact ⟨⟨.number, Nat.zero_le _⟩, List.forall_mem_singleton.2 .number, Rule.stops_of_nil rfl _,
      reached⟩
  | primaryOpenParen room opened tail ih =>
    simp only [read_primary_openParen, bind_eq_ok_iff] at ok
    obtain ⟨_, reachedTail, ⟨inner, behind⟩, okInner, closed, okClosed, eq⟩ := ok
    cases eq
    obtain ⟨position, rfl, reached⟩ := close_eq_ok okClosed
    exact .group (ih trivial reachedTail okInner) reached
  | primaryName room name position tail ih =>
    rw [read_primary_name, bind_eq_ok_iff] at ok
    obtain ⟨_, reachedTail, ok⟩ := ok
    obtain ⟨⟨d, cost⟩, called, stops, reached⟩ := ih trivial reachedTail ok
    exact ⟨⟨.named d, cost⟩, called, stops, reached⟩
  | primaryOperator room op position tail =>
    rw [read_primary_operator, bind_eq_ok_iff] at ok
    obtain ⟨_, -, ok⟩ := ok
    cases ok
  | primaryCloseParen room position tail =>
    rw [read_primary_closeParen, bind_eq_ok_iff] at ok
    obtain ⟨_, -, ok⟩ := ok
    cases ok
  | primaryComma room position tail =>
    rw [read_primary_comma, bind_eq_ok_iff] at ok
    obtain ⟨_, -, ok⟩ := ok
    cases ok
  | callUnknown name position room tokens unknown =>
    rw [read_call_unknown _ _ _ unknown] at ok
    cases ok
  | callOpenParen name position room arity opened tail known ih =>
    simp only [read_call_openParen _ _ _ known, bind_eq_ok_iff] at ok
    obtain ⟨_, reachedTail, ⟨args, behind⟩, okArgs, closed, okClosed, ok⟩ := ok
    obtain ⟨_, rfl, reached⟩ := close_eq_ok okClosed
    unfold Parser.called at ok
    split at ok
    next many =>
      cases ok
      exact .call (many ▸ known) (ih trivial reachedTail okArgs) reached
    next => cases ok
  | callOther name position room arity tokens known other =>
    rw [read_call_other _ _ _ known other] at ok
    cases ok
  | argumentsCloseParen room position tail =>
    rw [read_arguments_closeParen] at ok
    cases ok
    exact ⟨⟨.noArguments, Nat.zero_le _⟩, List.forall_mem_nil _, Rule.stops_of_nil rfl _, reached⟩
  | argumentsOther room tokens other ihFirst ihMore =>
    simp only [read_arguments_other _ _ _ other, bind_eq_ok_iff] at ok
    obtain ⟨⟨first, middle⟩, okFirst, ⟨more, behind⟩, okMore, eq⟩ := ok
    cases eq
    have head := ihFirst trivial reached okFirst
    exact .arguments head (ihMore first middle okFirst trivial head.reached okMore)
  | moreComma room position tail ihArg ihMore =>
    simp only [read_moreArguments_comma, bind_eq_ok_iff] at ok
    obtain ⟨_, reachedTail, ⟨arg, middle⟩, okArg, ⟨more, behind⟩, okMore, eq⟩ := ok
    cases eq
    have head := ihArg trivial reachedTail okArg
    exact .nextArgument head (ihMore arg middle okArg trivial head.reached okMore)
  | moreOther room tokens other =>
    rw [read_moreArguments_other _ _ _ other] at ok
    cases ok
    exact ⟨⟨.lastArgument, Nat.zero_le _⟩, List.forall_mem_nil _, Rule.stops_of_nil rfl _, reached⟩

end Parser
end ArithExpr
