import ArithExpr.Proofs.Grammar.Soundness

/-!
# What is derived is read

A derivation within the levels given is what the parser does on its tokens, if the calls in it are
right and the lexer finds no error. Main statement: `Parser.read_complete`.
-/

namespace ArithExpr

namespace Derivation

/-- What a run starts with is part of what is read. -/
lemma called_before {context} {rule : Rule} {value : rule.Value} {tokens rest}
    (d : Derivation rule value tokens rest)
    (called : ∀ tree ∈ rule.trees value, tree.WellCalled context) :
    ∀ left ∈ rule.before, left.WellCalled context := by
  induction d with
  | done => exact called
  | link _ _ _ _ ihMore =>
    cases ihMore called _ List.mem_cons_self with
    | binary calledLeft _ => exact List.forall_mem_singleton.2 calledLeft
  | _ => exact List.forall_mem_nil _

/-- What needs no parentheses starts with a token that is no sign. -/
lemma primary_starts {tree tokens rest} (d : Derivation .primary tree tokens rest) :
    ∃ token tail, tokens = token :: tail ∧ token.value.sign? = none := by
  cases d with
  | number => exact ⟨_, _, rfl, rfl⟩
  | group _ => exact ⟨_, _, rfl, rfl⟩
  | named _ => exact ⟨_, _, rfl, rfl⟩

end Derivation

namespace Parser

/-- In a text without an error all tokens can be reached. -/
lemma reach_of_finish {p : Parser} {position} (finish : p.ending = .finish position)
    (tokens : List Token) : p.reach tokens = .ok () := by
  cases tokens with
  | nil => simp [reach, finish]
  | cons token rest => rfl

/-- Where no power goes on, the base is all there is. -/
lemma exponent_of_stops {p : Parser} {base : Expr} {room rest} (stops : Rule.power.Stops rest) :
    p.exponent base room rest = .ok (base, rest) := by
  unfold exponent
  split
  next => exact absurd rfl (stops _ List.mem_cons_self)
  next => rfl

/-- What is derived within the levels given is read, up to where the rule has to stop. -/
theorem read_complete {p : Parser} {position} (finish : p.ending = .finish position)
    {rule : Rule} {value : rule.Value} {tokens rest} (d : Derivation rule value tokens rest)
    {room} (cost : d.cost ≤ room) (called : ∀ tree ∈ rule.trees value, tree.WellCalled p.context)
    (stops : rule.Stops rest) (closes : rule.Closes rest) :
    p.read rule room tokens = .ok (value, rest) := by
  have reached := reach_of_finish finish
  -- every step of the parser is decided by the first token, and that by where the rules stop
  induction d generalizing room with
  | chain first links ihFirst ihLinks =>
    obtain ⟨costFirst, costLinks⟩ := Nat.max_le.1 cost
    rw [read_chain, ihFirst costFirst (links.called_before called) (links.operand_stops stops)
      trivial, ok_bind]
    exact ihLinks costLinks called stops trivial
  | term d ih =>
    rw [read_operand_sum]
    exact ih cost called stops trivial
  | factor d ih =>
    rw [read_operand_product]
    exact ih cost called stops trivial
  | @done level left tokens =>
    cases tokens with
    | nil => exact read_links_nil _ _ _ _
    | cons token tail =>
      refine read_links_none _ _ _ _ (Level.operator?_eq_none.2 fun op mem => ?_)
      exact stops op (List.mem_append_left _ mem)
  | link joins right more ihRight ihMore =>
    simp only [Derivation.cost] at cost
    cases more.called_before called _ List.mem_cons_self with
    | binary _ calledRight =>
      rw [read_links_some _ _ _ _ (Level.operator?_eq_some.2 ⟨rfl, joins⟩), reached, ok_bind,
        ihRight (by omega) (List.forall_mem_singleton.2 calledRight) (more.operand_stops stops)
          trivial, ok_bind]
      exact ihMore (by omega) called stops trivial
  | base d ih =>
    simp only [Derivation.cost] at cost
    cases room with
    | zero => omega
    | succ room =>
      rw [read_power_succ, ih (by omega) called (Rule.stops_of_nil rfl _) trivial, ok_bind]
      exact exponent_of_stops stops
  | power left right ihLeft ihRight =>
    simp only [Derivation.cost] at cost
    cases room with
    | zero => omega
    | succ room =>
      cases List.forall_mem_singleton.1 called with
      | binary calledLeft calledRight =>
        rw [read_power_succ, ihLeft (by omega) (List.forall_mem_singleton.2 calledLeft)
          (Rule.stops_of_nil rfl _) trivial, ok_bind, exponent, reached, ok_bind,
          ihRight (by omega) (List.forall_mem_singleton.2 calledRight) stops trivial]
        rfl
  | @sign sign op _ _ _ _ same d ih =>
    simp only [Derivation.cost] at cost
    cases room with
    | zero => omega
    | succ room =>
      cases List.forall_mem_singleton.1 called with
      | unary calledOperand =>
        rw [read_unary_some _ _ _ (Lexeme.sign?_eq_some.2 (congrArg Lexeme.operator same.symm)),
          reached, ok_bind]
        have ok : p.read .unary room _ = _ :=
          ih (by omega) (List.forall_mem_singleton.2 calledOperand) stops trivial
        simp only [ok, ok_bind]
  | unsigned d ih =>
    obtain ⟨token, tail, rfl, unsigned⟩ := d.primary_starts
    rw [read_unary_none _ _ _ unsigned]
    exact ih cost called stops trivial
  | number => rw [read_primary_number, reached, ok_bind]
  | group d ih =>
    rw [read_primary_openParen, reached, ok_bind,
      ih cost called (Rule.stops_closeParen _ _ _) trivial, ok_bind, close_closeParen, reached]
    rfl
  | named d ih =>
    rw [read_primary_name, reached, ok_bind]
    exact ih cost called stops trivial
  | call d ih =>
    cases List.forall_mem_singleton.1 called with
    | call found arity calledArgs =>
      have known := congrArg (Option.map Builtin.arity) found
      rw [read_call_openParen _ _ _ known, reached, ok_bind,
        ih cost calledArgs (Rule.stops_of_nil rfl _) ⟨_, _, rfl⟩, ok_bind, close_closeParen,
        reached]
      exact if_pos arity.symm
  | noArguments =>
    obtain ⟨position, tail, rfl⟩ := closes
    exact read_arguments_closeParen _ _ _ _
  | arguments first more ihFirst ihMore =>
    obtain ⟨costFirst, costMore⟩ := Nat.max_le.1 cost
    obtain ⟨calledFirst, calledMore⟩ := List.forall_mem_cons.1 called
    rw [read_arguments_other _ _ _ first.ne_closeParen,
      ihFirst costFirst (List.forall_mem_singleton.2 calledFirst) (more.argument_stops closes)
        trivial, ok_bind, ihMore costMore calledMore stops closes]
    rfl
  | lastArgument =>
    obtain ⟨position, tail, rfl⟩ := closes
    refine read_moreArguments_other _ _ _ fun position rest same => ?_
    cases same
  | nextArgument arg more ihArg ihMore =>
    obtain ⟨costArg, costMore⟩ := Nat.max_le.1 cost
    obtain ⟨calledArg, calledMore⟩ := List.forall_mem_cons.1 called
    rw [read_moreArguments_comma, reached, ok_bind,
      ihArg costArg (List.forall_mem_singleton.2 calledArg) (more.argument_stops closes) trivial,
      ok_bind, ihMore costMore calledMore stops closes]
    rfl

end Parser
end ArithExpr
