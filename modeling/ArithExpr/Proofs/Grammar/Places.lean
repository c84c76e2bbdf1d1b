import ArithExpr.Proofs.Expr.Places
import ArithExpr.Proofs.Grammar.Exactness

/-!
# Tokens in other places

The parser hands on the offsets of tokens and decides nothing by them. Moving the tokens of a text
by a function moves the expression that is read, or its error, by the same function, rule by rule
(`Parser.read_moves`) and for all tokens (`Parser.whole_moves`).
-/

namespace ArithExpr
variable {α β γ δ : Type} {f : Nat → Nat}

/-- Moves the place at which the tokens of a text end. -/
def Ending.relocate (f : Nat → Nat) : Ending → Ending
  | .finish position => .finish (f position)
  | .fault error => .fault (error.relocate f)

/-- Moves the tokens of a text. -/
def Tokens.relocate (f : Nat → Nat) (tokens : Tokens) : Tokens :=
  ⟨tokens.list.map (Located.relocate f), tokens.ending.relocate f⟩

/-- The end of a text is where it was moved to. -/
lemma Ending.position_relocate (f : Nat → Nat) (ending : Ending) :
    (ending.relocate f).position = f ending.position := by
  cases ending <;> rfl

namespace Rule

/-- Moves what a rule goes on with. -/
abbrev relocate (f : Nat → Nat) : Rule → Rule
  | .links level left => .links level (left.relocate f)
  | .call name position => .call name (f position)
  | .chain level => .chain level
  | .operand level => .operand level
  | .power => .power
  | .unary => .unary
  | .primary => .primary
  | .arguments => .arguments
  | .moreArguments => .moreArguments

/-- Moves what a rule has read. -/
def relocateValue (f : Nat → Nat) : (rule : Rule) → rule.Value → (rule.relocate f).Value
  | .links _ _, tree => Expr.relocate f tree
  | .call _ _, tree => Expr.relocate f tree
  | .chain _, tree => Expr.relocate f tree
  | .operand _, tree => Expr.relocate f tree
  | .power, tree => Expr.relocate f tree
  | .unary, tree => Expr.relocate f tree
  | .primary, tree => Expr.relocate f tree
  | .arguments, trees => Expr.relocateAll f trees
  | .moreArguments, trees => Expr.relocateAll f trees

/-- Moves what a rule has read and the tokens behind it. -/
def relocateRead (f : Nat → Nat) (rule : Rule) (out : rule.Value × List Token) :
    (rule.relocate f).Value × List Token :=
  (rule.relocateValue f out.1, out.2.map (Located.relocate f))

end Rule

namespace Parser

/-- An answer and the one with its value changed by a function and its error moved by another. -/
def Moves (f : Nat → Nat) (g : α → β) (answer : Except Error α) (moved : Except Error β) : Prop :=
  moved = (answer.map g).mapError (Located.relocate f)

/-- A value is moved by itself. -/
lemma Moves.ok (g : α → β) (value : α) : Moves f g (.ok value) (.ok (g value)) :=
  rfl

/-- A fault is moved with its place. -/
lemma Moves.fail (g : α → β) (fault : ParseFault) (position : Nat) :
    Moves f g (fail fault position) (fail fault (f position)) :=
  rfl

/-- An answer is moved with its parts. -/
lemma Moves.bind {g : α → β} {h : γ → δ} {answer moved} {next : α → Except Error γ}
    {next' : β → Except Error δ} (moves : Moves f g answer moved)
    (goesOn : ∀ value, answer = .ok value → Moves f h (next value) (next' (g value))) :
    Moves f h (answer >>= next) (moved >>= next') := by
  cases moves
  cases answer with
  | error error => rfl
  | ok value => exact goesOn value rfl

/-- The parser of the tokens that were moved. -/
def relocate (f : Nat → Nat) (p : Parser) : Parser :=
  { p with ending := p.ending.relocate f }

variable {p : Parser}

/-- The place ahead is moved with the tokens. -/
lemma place_relocate (tokens : List Token) :
    (p.relocate f).place (tokens.map (Located.relocate f)) = f (p.place tokens) := by
  cases tokens with
  | nil => exact p.ending.position_relocate f
  | cons token rest => rfl

/-- Reaching the tokens is moved with them. -/
lemma reach_moves (tokens : List Token) :
    Moves f id (p.reach tokens) ((p.relocate f).reach (tokens.map (Located.relocate f))) := by
  cases tokens with
  | nil =>
    obtain ⟨context, limit, ending⟩ := p
    cases ending <;> rfl
  | cons token rest => rfl

/-- The fault that there are too few levels is moved with the tokens. -/
lemma tooDeep_moves (g : α → β) (tokens : List Token) :
    Moves f g (p.tooDeep tokens) ((p.relocate f).tooDeep (tokens.map (Located.relocate f))) := by
  rw [tooDeep, tooDeep, place_relocate]
  exact .fail g _ _

/-- Closing a parenthesis is moved with the tokens. -/
lemma close_moves (opened : Nat) (tokens : List Token) :
    Moves f (List.map (Located.relocate f)) (p.close opened tokens)
      ((p.relocate f).close (f opened) (tokens.map (Located.relocate f))) := by
  cases tokens with
  | nil => rfl
  | cons token rest =>
    obtain ⟨lexeme, position⟩ := token
    cases lexeme with
    | closeParen =>
      rw [close_closeParen, List.map_cons, close_closeParen]
      exact (reach_moves rest).bind fun _ _ => .ok _ _
    | _ => rfl

/-- The end of a call is moved with its arguments. -/
lemma called_moves (name : String) (position arity : Nat) (args : List Expr)
    (rest : List Token) :
    Moves f (Rule.relocateRead f (.call name position)) (called name position arity args rest)
      (called name (f position) arity (Expr.relocateAll f args)
        (rest.map (Located.relocate f))) := by
  rw [called, called, Expr.length_relocateAll]
  split
  next => exact .ok _ _
  next => exact .fail _ _ _

/-- Tokens that were moved start with a word only if the tokens do. -/
lemma map_relocate_ne_cons {lexeme : Lexeme} {tokens : List Token}
    (other : ∀ position rest, tokens ≠ ⟨lexeme, position⟩ :: rest) (position : Nat)
    (rest : List Token) : tokens.map (Located.relocate f) ≠ ⟨lexeme, position⟩ :: rest := by
  intro same
  cases tokens with
  | nil => cases same
  | cons token tail =>
    obtain ⟨found, at_⟩ := token
    cases same
    exact other at_ tail rfl

/-- A rule reads from tokens that were moved what it reads from the tokens, moved like them. -/
theorem read_moves (f : Nat → Nat) (rule : Rule) (room : Nat) (tokens : List Token) :
    Moves f (rule.relocateRead f) (p.read rule room tokens)
      ((p.relocate f).read (rule.relocate f) room (tokens.map (Located.relocate f))) := by
  induction rule, room, tokens using induct (p := p) with
  | chain level room tokens ihFirst ihLinks =>
    rw [read_chain, read_chain]
    exact ihFirst.bind fun first ok => ihLinks first.1 first.2 ok
  | term room tokens ih =>
    rw [read_operand_sum, read_operand_sum]
    exact ih
  | factor room tokens ih =>
    rw [read_operand_product, read_operand_product]
    exact ih
  | linksNil level left room =>
    rw [read_links_nil, List.map_nil, read_links_nil]
    exact .ok _ _
  | linksNone level left room token rest ends =>
    have ends' : level.operator? (token.relocate f).value = none := ends
    rw [read_links_none _ _ _ _ ends, List.map_cons, read_links_none _ _ _ _ ends']
    exact .ok _ _
  | linksSome level left room token rest op joins ihRight ihMore =>
    have joins' : level.operator? (token.relocate f).value = some op := joins
    rw [read_links_some _ _ _ _ joins, List.map_cons, read_links_some _ _ _ _ joins']
    exact (reach_moves rest).bind fun _ _ => ihRight.bind fun right ok =>
      ihMore right.1 right.2 ok
  | powerZero tokens =>
    rw [read_power_zero, read_power_zero]
    exact tooDeep_moves _ tokens
  | powerSucc room tokens ihBase ihExponent =>
    rw [read_power_succ, read_power_succ]
    refine ihBase.bind fun base ok => ?_
    obtain ⟨base, behind⟩ := base
    show Moves f (Rule.relocateRead f .power) (p.exponent base room behind)
      ((p.relocate f).exponent (base.relocate f) room (behind.map (Located.relocate f)))
    -- an exponent follows if the word ahead says so, and words are not moved
    rw [exponent.eq_def]
    split
    next position rest =>
      exact (reach_moves rest).bind fun _ _ => (ihExponent base position rest ok).bind fun _ _ =>
        .ok _ _
    next other =>
      rw [exponent]
      · exact .ok _ _
      · exact map_relocate_ne_cons other
  | unaryNil room ih =>
    rw [read_unary_nil, List.map_nil, read_unary_nil]
    exact ih
  | unaryNone room token rest unsigned ih =>
    have unsigned' : (token.relocate f).value.sign? = none := unsigned
    rw [read_unary_none _ _ _ unsigned, List.map_cons, read_unary_none _ _ _ unsigned']
    exact ih
  | unarySome room token rest sign signed ih =>
    have signed' : (token.relocate f).value.sign? = some sign := signed
    rw [read_unary_some _ _ _ signed, List.map_cons, read_unary_some _ _ _ signed']
    refine (reach_moves rest).bind fun _ _ => ?_
    cases room with
    | zero => exact tooDeep_moves _ rest
    | succ room => exact (ih room).bind fun _ _ => .ok _ _
  | primaryNil room =>
    rw [read_primary_nil, List.map_nil, read_primary_nil]
    exact place_relocate [] ▸ .fail _ _ _
  | primaryNumber room value position rest =>
    rw [read_primary_number, List.map_cons, read_primary_number]
    exact (reach_moves rest).bind fun _ _ => .ok _ _
  | primaryOpenParen room opened rest ih =>
    rw [read_primary_openParen, List.map_cons, read_primary_openParen]
    exact (reach_moves rest).bind fun _ _ => ih.bind fun inner _ =>
      (close_moves opened inner.2).bind fun _ _ => .ok _ _
  | primaryName room name position rest ih =>
    rw [read_primary_name, List.map_cons, read_primary_name]
    exact (reach_moves rest).bind fun _ _ => ih
  | primaryOperator room op position rest =>
    rw [read_primary_operator, List.map_cons, read_primary_operator]
    exact (reach_moves rest).bind fun _ _ => .fail _ _ _
  | primaryCloseParen room position rest =>
    rw [read_primary_closeParen, List.map_cons, read_primary_closeParen]
    exact (reach_moves rest).bind fun _ _ => .fail _ _ _
  | primaryComma room position rest =>
    rw [read_primary_comma, List.map_cons, read_primary_comma]
    exact (reach_moves rest).bind fun _ _ => .fail _ _ _
  | callUnknown name position room tokens unknown =>
    rw [read_call_unknown _ _ _ unknown, read_call_unknown (p.relocate f) _ _ unknown]
    exact .fail _ _ _
  | callOpenParen name position room arity opened rest known ih =>
    rw [read_call_openParen _ _ _ known, List.map_cons,
      read_call_openParen (p.relocate f) _ _ known]
    exact (reach_moves rest).bind fun _ _ => ih.bind fun args _ =>
      (close_moves opened args.2).bind fun rest _ => called_moves name position arity args.1 rest
  | callOther name position room arity tokens known other =>
    rw [read_call_other _ _ _ known other,
      read_call_other (p.relocate f) _ _ known (map_relocate_ne_cons other), place_relocate]
    exact .fail _ _ _
  | argumentsCloseParen room position rest =>
    rw [read_arguments_closeParen, List.map_cons, read_arguments_closeParen]
    exact .ok _ _
  | argumentsOther room tokens other ihFirst ihMore =>
    rw [read_arguments_other _ _ _ other, read_arguments_other _ _ _ (map_relocate_ne_cons other)]
    exact ihFirst.bind fun first ok => (ihMore first.1 first.2 ok).bind fun _ _ => .ok _ _
  | moreComma room position rest ihArg ihMore =>
    rw [read_moreArguments_comma, List.map_cons, read_moreArguments_comma]
    exact (reach_moves rest).bind fun _ _ => ihArg.bind fun arg ok =>
      (ihMore arg.1 arg.2 ok).bind fun _ _ => .ok _ _
  | moreOther room tokens other =>
    rw [read_moreArguments_other _ _ _ other,
      read_moreArguments_other _ _ _ (map_relocate_ne_cons other)]
    exact .ok _ _

/-- The end of a text is moved with the expression in front of it. -/
lemma ended_moves (expr : Expr) (rest : List Token) :
    Moves f (Expr.relocate f) (ended expr rest)
      (ended (expr.relocate f) (rest.map (Located.relocate f))) := by
  unfold ended
  split
  next => exact .ok _ _
  next => exact .fail _ _ _
  next token rest other =>
    obtain ⟨lexeme, position⟩ := token
    cases lexeme with
    | closeParen => exact absurd rfl (other position)
    | _ => exact .fail _ _ _

/-- The expression that takes all tokens is moved with them, and so is the error in them. -/
theorem whole_moves (f : Nat → Nat) (p : Parser) (tokens : List Token) :
    Moves f (Expr.relocate f) (p.whole tokens)
      ((p.relocate f).whole (tokens.map (Located.relocate f))) := by
  cases tokens with
  | nil =>
    refine (reach_moves []).bind fun _ _ => ?_
    simp only [List.isEmpty_nil, List.map_nil, if_true]
    exact place_relocate [] ▸ .fail _ _ _
  | cons token rest =>
    rw [whole_cons, List.map_cons, whole_cons]
    exact (read_moves f (.chain .sum) p.limit (token :: rest)).bind fun all _ =>
      ended_moves all.1 all.2

end Parser
end ArithExpr
