import ArithExpr.Proofs.Grammar.Soundness
import ArithExpr.Proofs.Grammar.Traversal
import Mathlib.Logic.IsEmpty.Basic

/-!
# Tokens that can still become an expression

Tokens are viable if they are the front of a sentence of the grammar whose names are all known.
`Awaits` says what a parser knows when it goes on with a rule behind the tokens that it has taken:
whatever the rule reads there makes viable tokens, and every sentence that goes on with the token
ahead goes on with what the rule reads. There is one lemma for each step from rule to rule, all of
them from `Awaits.step`. Where the rule reads nothing the tokens taken are the longest viable ones
(`Awaits.stuck`).
-/

namespace ArithExpr

/-- The tokens of an expression. -/
def Sentence (tokens : List Token) : Prop :=
  ∃ expr, Nonempty (Derivation (.chain .sum) expr tokens [])

/-- Every name among some tokens is the name of a function. -/
def Context.Knows (context : Context) (tokens : List Token) : Prop :=
  ∀ name position, ⟨.name name, position⟩ ∈ tokens → context.contains name = true

/-- Tokens with which a sentence begins in which every name is the name of a function. -/
def Viable (context : Context) (tokens : List Token) : Prop :=
  ∃ more, Sentence (tokens ++ more) ∧ context.Knows (tokens ++ more)

namespace Context.Knows
variable {context : Context} {tokens tokens' : List Token} {token : Token}

/-- Without tokens there is no name to be known. -/
lemma nil : context.Knows [] := by
  intro name position mem
  cases mem

/-- Tokens put together hold no other names. -/
lemma append (knows : context.Knows tokens) (knows' : context.Knows tokens') :
    context.Knows (tokens ++ tokens') := by
  intro name position mem
  obtain mem | mem := List.mem_append.1 mem
  · exact knows name position mem
  · exact knows' name position mem

/-- A word that is no name needs not be known. -/
lemma cons (knows : context.Knows tokens) (other : ∀ name, token.value ≠ .name name) :
    context.Knows (token :: tokens) := by
  intro name position mem
  obtain rfl | mem := List.mem_cons.1 mem
  · exact absurd rfl (other name)
  · exact knows name position mem

end Context.Knows

/-- What a viable text starts with is viable. -/
lemma Viable.of_append {context before more} (viable : Viable context (before ++ more)) :
    Viable context before := by
  obtain ⟨rest, sentence, knows⟩ := viable
  rw [List.append_assoc] at sentence knows
  exact ⟨more ++ rest, sentence, knows⟩

/-- The names in an expression whose calls are right are known. -/
lemma Expr.WellCalled.knows {context expr} (well : WellCalled context expr) :
    context.Knows expr.tokens := by
  induction well with
  | number => exact .cons .nil nofun
  | unary _ ih => exact .cons ih nofun
  | binary _ _ ihLeft ihRight => exact .append ihLeft (.cons ihRight nofun)
  | @call name args builtin position found _ _ ih =>
    intro other place mem
    obtain same | mem := List.mem_cons.1 mem
    · cases same
      rw [Context.contains, found, Option.isSome_some]
    · obtain ⟨arg, memArgs, mem⟩ := Expr.exists_of_mem_tokensAll mem
      exact ih arg memArgs other place mem

/-- Tokens that a rule reads as a value in front of all others, with known names. -/
structure Taken (context : Context) (rule : Rule) (value : rule.Value) (tokens : List Token) :
    Prop where
  knows : context.Knows tokens
  derived : ∀ behind, Nonempty (Derivation rule value (tokens ++ behind) behind)

/-- What a rule reads are tokens taken off the front. -/
lemma Parser.Reads.exists_taken {p : Parser} {rule : Rule} {room} {value : rule.Value}
    {tokens rest} (reads : p.Reads rule room value tokens rest) :
    ∃ taken, tokens = taken ++ rest ∧ Taken p.context rule value taken := by
  obtain ⟨d, -⟩ := reads.derived
  obtain ⟨taken, rfl, all⟩ := d.exists_taken
  refine ⟨taken, rfl, fun name position mem => ?_, fun behind => (all behind).nonempty⟩
  have words : Expr.tokensAll (rule.trees value) = rule.begun ++ nodeTokens taken := by
    have same := d.tokensAll_trees
    rw [nodeTokens, nodeTokens, List.filter_append, ← List.append_assoc] at same
    exact List.append_cancel_right same
  have node : ⟨.name name, position⟩ ∈ Expr.tokensAll (rule.trees value) := by
    rw [words]
    exact List.mem_append_right _ (List.mem_filter.2 ⟨mem, rfl⟩)
  obtain ⟨tree, memTrees, memTree⟩ := Expr.exists_of_mem_tokensAll node
  exact (reads.called tree memTrees).knows name position memTree

/-- Every rule reads something in which no name has to be known. -/
lemma Rule.exists_taken (context : Context) (rule : Rule) :
    ∃ value tokens, Taken context rule value tokens := by
  have knows : context.Knows [⟨.number 0, 0⟩] := .cons .nil nofun
  have unary (behind : List Token) :
      Derivation .unary (.number 0 0) (⟨.number 0, 0⟩ :: behind) behind :=
    .unsigned .number
  have product (behind : List Token) :
      Derivation (.chain .product) (.number 0 0) (⟨.number 0, 0⟩ :: behind) behind :=
    .chain (.factor (.base (unary behind))) .done
  cases rule with
  | chain level =>
    cases level with
    | sum => exact ⟨_, _, knows, fun behind => ⟨.chain (.term (product behind)) .done⟩⟩
    | product => exact ⟨_, _, knows, fun behind => ⟨product behind⟩⟩
  | operand level =>
    cases level with
    | sum => exact ⟨_, _, knows, fun behind => ⟨.term (product behind)⟩⟩
    | product => exact ⟨_, _, knows, fun behind => ⟨.factor (.base (unary behind))⟩⟩
  | links level left => exact ⟨left, [], .nil, fun _ => ⟨.done⟩⟩
  | power => exact ⟨_, _, knows, fun behind => ⟨.base (unary behind)⟩⟩
  | unary => exact ⟨_, _, knows, fun behind => ⟨unary behind⟩⟩
  | primary => exact ⟨_, _, knows, fun _ => ⟨.number⟩⟩
  | call name position =>
    exact ⟨_, [⟨.openParen, 0⟩, ⟨.closeParen, 0⟩], .cons (.cons .nil nofun) nofun,
      fun _ => ⟨.call .noArguments⟩⟩
  | arguments => exact ⟨([] : List Expr), [], .nil, fun _ => ⟨.noArguments⟩⟩
  | moreArguments => exact ⟨([] : List Expr), [], .nil, fun _ => ⟨.lastArgument⟩⟩

/-- Where a rule stops is decided by the token ahead. -/
lemma Rule.Stops.of_head? {rule : Rule} {rest rest' : List Token} (stops : rule.Stops rest)
    (same : rest'.head? = rest.head?) : rule.Stops rest' := by
  cases rest' with
  | nil => trivial
  | cons token tail =>
    obtain ⟨tail', rfl⟩ := List.head?_eq_some_iff.1 same.symm
    exact stops

/-- Tokens taken in front of others with the same one ahead have the same one ahead. -/
lemma head?_append_congr {taken more ahead : List Token} (same : more.head? = ahead.head?) :
    (taken ++ more).head? = (taken ++ ahead).head? := by
  rw [List.head?_append, List.head?_append, same]

/-- Where an expression has to stop it is read in one way from tokens that it was taken off. -/
lemma Taken.unique {context} {rule : Rule} {value : rule.Value} {taken}
    (read : Taken context rule value taken) {ahead more : List Token} (stops : rule.Stops ahead)
    (same : more.head? = ahead.head?) {value' : rule.Value} {rest}
    (d : Derivation rule value' (taken ++ more) rest) (stops' : rule.Stops rest)
    (closes : ∀ tokens, rule.Closes tokens) : value' = value ∧ rest = more := by
  obtain ⟨d'⟩ := read.derived more
  obtain ⟨rfl, rfl, -⟩ := d.unique d' stops' (stops.of_head? same) (closes _) (closes _)
  exact ⟨rfl, rfl⟩

/-- Behind the name of a call that name is known. -/
def Rule.Opened (context : Context) : Rule → List Token → Prop
  | .call name position, before =>
    context.contains name = true ∧ ∃ front, before = front ++ [⟨.name name, position⟩]
  | _, _ => True

/-- What a parser knows when it goes on with a rule behind the tokens before. -/
structure Awaits (context : Context) (rule : Rule) (before ahead : List Token) : Prop where
  opened : rule.Opened context before
  completes : ∀ value taken, Taken context rule value taken → Viable context (before ++ taken)
  forced : ∀ more, more.head? = ahead.head? → Sentence (before ++ more) →
    ∃ value rest, Nonempty (Derivation rule value more rest) ∧ rule.Stops rest ∧ rule.Closes rest

/-- The tokens before are viable, and with the one ahead they are not. -/
structure Stuck (context : Context) (before ahead : List Token) : Prop where
  viable : Viable context before
  ends : ∀ more, more.head? = ahead.head? → ¬ Sentence (before ++ more)

namespace Awaits
variable {context : Context} {before taken ahead : List Token} {rule rule' : Rule}

/-- What the parser has read is viable. -/
lemma viable (awaits : Awaits context rule before ahead) : Viable context before := by
  obtain ⟨value, tokens, read⟩ := rule.exists_taken context
  exact (awaits.completes value tokens read).of_append

/-- A rule goes on with another one behind the tokens taken if it reads what that one reads there,
and if where it reads something that one does. -/
lemma step (awaits : Awaits context rule before (taken ++ ahead)) (knows : context.Knows taken)
    (opened : rule'.Opened context (before ++ taken))
    (completes : ∀ value tokens, Taken context rule' value tokens →
      ∃ value' behind, context.Knows behind ∧
        ∀ rest, Nonempty (Derivation rule value' (taken ++ (tokens ++ (behind ++ rest))) rest))
    (forced : ∀ value more rest, more.head? = ahead.head? →
      Derivation rule value (taken ++ more) rest → rule.Stops rest → rule.Closes rest →
      ∃ value' rest', Nonempty (Derivation rule' value' more rest') ∧ rule'.Stops rest' ∧
        rule'.Closes rest') :
    Awaits context rule' (before ++ taken) ahead := by
  refine ⟨opened, fun value tokens read => ?_, fun more same sentence => ?_⟩
  · -- what the other rule reads is completed to something that this one reads
    obtain ⟨value', behind, knowsBehind, derived⟩ := completes value tokens read
    have whole : Taken context rule value' (taken ++ (tokens ++ behind)) := by
      refine ⟨knows.append (read.knows.append knowsBehind), fun rest => ?_⟩
      rw [List.append_assoc, List.append_assoc]
      exact derived rest
    have viable := awaits.completes value' _ whole
    rw [← List.append_assoc, ← List.append_assoc] at viable
    exact viable.of_append
  · -- a sentence with this token ahead has something of this rule here, and so of the other one
    rw [List.append_assoc] at sentence
    obtain ⟨value, rest, ⟨d⟩, stops, closes⟩ :=
      awaits.forced _ (head?_append_congr same) sentence
    exact forced value more rest same d stops closes

/-- Between two rules there need not be a token. -/
lemma here (awaits : Awaits context rule before ahead) (opened : rule'.Opened context before)
    (completes : ∀ value tokens, Taken context rule' value tokens →
      ∃ value' behind, context.Knows behind ∧
        ∀ rest, Nonempty (Derivation rule value' (tokens ++ (behind ++ rest)) rest))
    (forced : ∀ value more rest, more.head? = ahead.head? →
      Derivation rule value more rest → rule.Stops rest → rule.Closes rest →
      ∃ value' rest', Nonempty (Derivation rule' value' more rest') ∧ rule'.Stops rest' ∧
        rule'.Closes rest') :
    Awaits context rule' before ahead := by
  have awaits : Awaits context rule before ([] ++ ahead) := awaits
  rw [← List.append_nil before] at opened ⊢
  exact awaits.step .nil opened completes forced

/-- At the start of a text an expression is awaited. -/
lemma start (context : Context) (tokens : List Token) :
    Awaits context (.chain .sum) [] tokens := by
  refine ⟨trivial, fun value taken read => ⟨[], ?_, ?_⟩, ?_⟩
  · rw [List.nil_append]
    exact ⟨value, read.derived []⟩
  · rw [List.nil_append, List.append_nil]
    exact read.knows
  · intro more _ ⟨value, d⟩
    exact ⟨value, [], d, trivial, trivial⟩

section
variable {level : Level}

/-- At the start of a run its first operand is awaited. -/
lemma operand (awaits : Awaits context (.chain level) before ahead) :
    Awaits context (.operand level) before ahead := by
  refine awaits.here trivial (fun value tokens read => ⟨value, [], .nil, fun rest => ?_⟩) ?_
  · exact (read.derived rest).map (.chain · .done)
  · intro value more rest _ d stops _
    cases d with
    | chain first links => exact ⟨_, _, ⟨first⟩, links.operand_stops stops, trivial⟩

/-- Behind the first operand of a run the operators and operands that follow are awaited. -/
lemma links {first} (awaits : Awaits context (.chain level) before (taken ++ ahead))
    (read : Taken context (.operand level) first taken) (stops : (Rule.operand level).Stops ahead) :
    Awaits context (.links level first) (before ++ taken) ahead := by
  refine awaits.step read.knows trivial
    (fun value tokens more => ⟨value, [], .nil, fun rest => ?_⟩) ?_
  · obtain ⟨first⟩ := read.derived (tokens ++ rest)
    exact (more.derived rest).map (.chain first ·)
  · intro value more rest same d stops' _
    cases d with
    | chain first links =>
      obtain ⟨rfl, rfl⟩ :=
        read.unique stops same first (links.operand_stops stops') fun _ => trivial
      exact ⟨value, rest, ⟨links⟩, stops', trivial⟩

/-- Where an operand of a sum is awaited a product is. -/
lemma term (awaits : Awaits context (.operand .sum) before ahead) :
    Awaits context (.chain .product) before ahead := by
  refine awaits.here trivial (fun value tokens read => ⟨value, [], .nil, fun rest => ?_⟩) ?_
  · exact (read.derived rest).map .term
  · intro value more rest _ d stops _
    cases d with
    | term d => exact ⟨_, _, ⟨d⟩, stops, trivial⟩

/-- Where an operand of a product is awaited a power is. -/
lemma factor (awaits : Awaits context (.operand .product) before ahead) :
    Awaits context .power before ahead := by
  refine awaits.here trivial (fun value tokens read => ⟨value, [], .nil, fun rest => ?_⟩) ?_
  · exact (read.derived rest).map .factor
  · intro value more rest _ d stops _
    cases d with
    | factor d => exact ⟨_, _, ⟨d⟩, stops, trivial⟩

/-- Behind an operator of a run its right operand is awaited. -/
lemma right {left token op} (awaits : Awaits context (.links level left) before (token :: ahead))
    (joins : level.operator? token.value = some op) :
    Awaits context (.operand level) (before ++ [token]) ahead := by
  obtain ⟨lexeme, position⟩ := token
  obtain ⟨rfl, mem⟩ := Level.operator?_eq_some.1 joins
  refine awaits.step (.cons .nil nofun) trivial
    (fun value tokens read =>
      ⟨.binary op left value position, [], .nil, fun rest => ?_⟩) ?_
  · exact (read.derived rest).map (.link mem · .done)
  · intro value more rest _ d stops _
    cases d with
    | done => exact absurd rfl (stops op (List.mem_append_left _ mem))
    | link _ right more => exact ⟨_, _, ⟨right⟩, more.operand_stops stops, trivial⟩

/-- Behind an operator and its operand the rest of the run is awaited. -/
lemma link {left token op right}
    (awaits : Awaits context (.links level left) before (token :: (taken ++ ahead)))
    (joins : level.operator? token.value = some op)
    (read : Taken context (.operand level) right taken)
    (stops : (Rule.operand level).Stops ahead) :
    Awaits context (.links level (.binary op left right token.position)) (before ++ token :: taken)
      ahead := by
  obtain ⟨lexeme, position⟩ := token
  obtain ⟨rfl, mem⟩ := Level.operator?_eq_some.1 joins
  refine awaits.step (.cons read.knows nofun) trivial
    (fun value tokens more => ⟨value, [], .nil, fun rest => ?_⟩) ?_
  · obtain ⟨right⟩ := read.derived (tokens ++ rest)
    exact (more.derived rest).map (.link mem right ·)
  · intro value more rest same d stops' _
    cases d with
    | done => exact absurd rfl (stops' op (List.mem_append_left _ mem))
    | link _ right links =>
      obtain ⟨rfl, rfl⟩ :=
        read.unique stops same right (links.operand_stops stops') fun _ => trivial
      exact ⟨value, rest, ⟨links⟩, stops', trivial⟩

end

/-- Where a power is awaited its base is. -/
lemma base (awaits : Awaits context .power before ahead) : Awaits context .unary before ahead := by
  refine awaits.here trivial (fun value tokens read => ⟨value, [], .nil, fun rest => ?_⟩) ?_
  · exact (read.derived rest).map .base
  · intro value more rest _ d _ _
    cases d with
    | base d => exact ⟨_, _, ⟨d⟩, Rule.stops_of_nil rfl _, trivial⟩
    | power d _ => exact ⟨_, _, ⟨d⟩, Rule.stops_of_nil rfl _, trivial⟩

/-- Behind a base and the power operator the exponent is awaited. -/
lemma exponent {base position}
    (awaits : Awaits context .power before (taken ++ ⟨.operator .power, position⟩ :: ahead))
    (read : Taken context .unary base taken) :
    Awaits context .power (before ++ (taken ++ [⟨.operator .power, position⟩])) ahead := by
  rw [List.append_cons] at awaits
  refine awaits.step (read.knows.append (.cons .nil nofun)) trivial
    (fun value tokens exponent =>
      ⟨.binary .power base value position, [], .nil, fun rest => ?_⟩) ?_
  · rw [← List.append_cons]
    obtain ⟨left⟩ := read.derived (⟨.operator .power, position⟩ :: (tokens ++ rest))
    exact (exponent.derived rest).map (.power left ·)
  · intro value more rest _ d stops _
    rw [← List.append_cons] at d
    cases d with
    | base d =>
      obtain ⟨-, rfl⟩ := read.unique (Rule.stops_of_nil rfl _) rfl d (Rule.stops_of_nil rfl _)
        fun _ => trivial
      exact absurd rfl (stops _ List.mem_cons_self)
    | power left right =>
      obtain ⟨-, same⟩ := read.unique (Rule.stops_of_nil rfl _) rfl left
        (Rule.stops_of_nil rfl _) fun _ => trivial
      cases same
      exact ⟨_, _, ⟨right⟩, stops, trivial⟩

/-- Behind a sign something that may have a sign again is awaited. -/
lemma signed {token sign} (awaits : Awaits context .unary before (token :: ahead))
    (signed : token.value.sign? = some sign) :
    Awaits context .unary (before ++ [token]) ahead := by
  obtain ⟨lexeme, position⟩ := token
  obtain rfl := Lexeme.sign?_eq_some.1 signed
  refine awaits.step (.cons .nil nofun) trivial
    (fun value tokens read => ⟨.unary sign value position, [], .nil, fun rest => ?_⟩) ?_
  · exact (read.derived rest).map (.sign rfl)
  · intro value more rest _ d _ _
    cases d with
    | sign _ d => exact ⟨_, _, ⟨d⟩, Rule.stops_of_nil rfl _, trivial⟩
    | unsigned d => cases d

/-- In front of a token that is no sign an operand without one is awaited. -/
lemma unsigned (awaits : Awaits context .unary before ahead)
    (unsigned : ∀ token ∈ ahead.head?, token.value.sign? = none) :
    Awaits context .primary before ahead := by
  refine awaits.here trivial (fun value tokens read => ⟨value, [], .nil, fun rest => ?_⟩) ?_
  · exact (read.derived rest).map .unsigned
  · intro value more rest same d _ _
    cases d with
    | sign written _ =>
      have none := unsigned _ same.symm
      rw [← written, Lexeme.sign?_eq_some.2 rfl] at none
      cases none
    | unsigned d => exact ⟨_, _, ⟨d⟩, Rule.stops_of_nil rfl _, trivial⟩

/-- Behind an opening parenthesis a sum is awaited. -/
lemma group {opened} (awaits : Awaits context .primary before (⟨.openParen, opened⟩ :: ahead)) :
    Awaits context (.chain .sum) (before ++ [⟨.openParen, opened⟩]) ahead := by
  refine awaits.step (.cons .nil nofun) trivial
    (fun value tokens read => ⟨value, [⟨.closeParen, 0⟩], .cons .nil nofun, fun rest => ?_⟩) ?_
  · exact (read.derived (⟨.closeParen, 0⟩ :: rest)).map .group
  · intro value more rest _ d _ _
    cases d with
    | group d => exact ⟨_, _, ⟨d⟩, Rule.stops_closeParen _ _ _, trivial⟩

/-- Behind the name of a function its call is awaited. -/
lemma named {name position}
    (awaits : Awaits context .primary before (⟨.name name, position⟩ :: ahead))
    (known : context.contains name = true) :
    Awaits context (.call name position) (before ++ [⟨.name name, position⟩]) ahead := by
  have knows : context.Knows [⟨.name name, position⟩] := by
    intro other place mem
    cases List.mem_singleton.1 mem
    exact known
  have awaits : Awaits context .primary before ([⟨.name name, position⟩] ++ ahead) := awaits
  refine awaits.step knows ⟨known, before, rfl⟩
    (fun value tokens read => ⟨value, [], .nil, fun rest => ?_⟩) ?_
  · exact (read.derived rest).map .named
  · intro value more rest _ d _ _
    cases d with
    | named d => exact ⟨_, _, ⟨d⟩, Rule.stops_of_nil rfl _, trivial⟩

/-- Behind the parenthesis of a call its arguments are awaited. -/
lemma call {name position opened}
    (awaits : Awaits context (.call name position) before (⟨.openParen, opened⟩ :: ahead)) :
    Awaits context .arguments (before ++ [⟨.openParen, opened⟩]) ahead := by
  refine awaits.step (.cons .nil nofun) trivial
    (fun value tokens read => ⟨.call name value position, [⟨.closeParen, 0⟩], .cons .nil nofun,
      fun rest => ?_⟩) ?_
  · exact (read.derived (⟨.closeParen, 0⟩ :: rest)).map .call
  · intro value more rest _ d _ _
    cases d with
    | call d => exact ⟨_, _, ⟨d⟩, Rule.stops_of_nil rfl _, _, _, rfl⟩

/-- Where a call is not closed at once its first argument is awaited. -/
lemma first (awaits : Awaits context .arguments before ahead)
    (other : ∀ position rest, ahead ≠ ⟨.closeParen, position⟩ :: rest) :
    Awaits context (.chain .sum) before ahead := by
  refine awaits.here trivial (fun value tokens read => ⟨[value], [], .nil, fun rest => ?_⟩) ?_
  · exact (read.derived rest).map (.arguments · .lastArgument)
  · intro value more rest same d _ closes
    cases d with
    | noArguments =>
      obtain ⟨position, tail, rfl⟩ := closes
      obtain ⟨tail', rfl⟩ := List.head?_eq_some_iff.1 same.symm
      exact absurd rfl (other position tail')
    | arguments first more =>
      exact ⟨_, _, ⟨first⟩, more.argument_stops closes, trivial⟩

/-- Behind the first argument the others are awaited. -/
lemma rest {value} (awaits : Awaits context .arguments before (taken ++ ahead))
    (read : Taken context (.chain .sum) value taken) (stops : (Rule.chain .sum).Stops ahead) :
    Awaits context .moreArguments (before ++ taken) ahead := by
  refine awaits.step read.knows trivial
    (fun values tokens more => ⟨value :: values, [], .nil, fun rest => ?_⟩) ?_
  · obtain ⟨first⟩ := read.derived (tokens ++ rest)
    exact (more.derived rest).map (.arguments first ·)
  · intro values more rest same d _ closes
    generalize whole : taken ++ more = tokens at d
    cases d with
    | noArguments =>
      obtain ⟨position, tail, starts⟩ := closes
      obtain ⟨d⟩ := read.derived more
      exact (d.ne_closeParen position tail (whole.trans starts)).elim
    | arguments first others =>
      subst whole
      obtain ⟨rfl, rfl⟩ :=
        read.unique stops same first (others.argument_stops closes) fun _ => trivial
      exact ⟨_, _, ⟨others⟩, Rule.stops_of_nil rfl _, closes⟩

/-- Behind a comma an argument is awaited, and behind that the ones after it. -/
lemma next {position}
    (awaits : Awaits context .moreArguments before (⟨.comma, position⟩ :: ahead)) :
    Awaits context (.chain .sum) (before ++ [⟨.comma, position⟩]) ahead := by
  refine awaits.step (.cons .nil nofun) trivial
    (fun value tokens read => ⟨[value], [], .nil, fun rest => ?_⟩) ?_
  · exact (read.derived rest).map (.nextArgument · .lastArgument)
  · intro values more rest _ d _ closes
    cases d with
    | lastArgument =>
      obtain ⟨_, _, same⟩ := closes
      cases same
    | nextArgument arg more => exact ⟨_, _, ⟨arg⟩, more.argument_stops closes, trivial⟩

/-- Behind a comma and an argument those that follow it are awaited. -/
lemma others {value position}
    (awaits : Awaits context .moreArguments before (⟨.comma, position⟩ :: (taken ++ ahead)))
    (read : Taken context (.chain .sum) value taken) (stops : (Rule.chain .sum).Stops ahead) :
    Awaits context .moreArguments (before ++ ⟨.comma, position⟩ :: taken) ahead := by
  refine awaits.step (.cons read.knows nofun) trivial
    (fun values tokens more => ⟨value :: values, [], .nil, fun rest => ?_⟩) ?_
  · obtain ⟨arg⟩ := read.derived (tokens ++ rest)
    exact (more.derived rest).map (.nextArgument arg ·)
  · intro values more rest same d _ closes
    cases d with
    | lastArgument =>
      obtain ⟨_, _, same⟩ := closes
      cases same
    | nextArgument arg others =>
      obtain ⟨rfl, rfl⟩ :=
        read.unique stops same arg (others.argument_stops closes) fun _ => trivial
      exact ⟨_, _, ⟨others⟩, Rule.stops_of_nil rfl _, closes⟩

/-- Where the rule reads nothing with the token ahead the parser is stuck. -/
lemma stuck (awaits : Awaits context rule before ahead)
    (none : ∀ value more rest, more.head? = ahead.head? → rule.Closes rest →
      IsEmpty (Derivation rule value more rest)) : Stuck context before ahead := by
  refine ⟨awaits.viable, fun more same sentence => ?_⟩
  obtain ⟨value, rest, ⟨d⟩, -, closes⟩ := awaits.forced more same sentence
  exact (none value more rest same closes).false d

/-- Where the expression in parentheses ends and no parenthesis closes it the parser is stuck. -/
lemma stuck_of_group {opened tree}
    (awaits : Awaits context .primary before (⟨.openParen, opened⟩ :: (taken ++ ahead)))
    (read : Taken context (.chain .sum) tree taken) (stops : (Rule.chain .sum).Stops ahead)
    (other : ∀ position rest, ahead ≠ ⟨.closeParen, position⟩ :: rest) :
    Stuck context (before ++ ⟨.openParen, opened⟩ :: taken) ahead := by
  have whole : Taken context .primary tree
      (⟨.openParen, opened⟩ :: (taken ++ [⟨.closeParen, 0⟩])) := by
    refine ⟨.cons (read.knows.append (.cons .nil nofun)) nofun, fun behind => ?_⟩
    rw [List.cons_append, List.append_assoc]
    exact (read.derived _).map .group
  refine ⟨?_, fun more same sentence => ?_⟩
  · have viable := awaits.completes _ _ whole
    rw [← List.cons_append, ← List.append_assoc] at viable
    exact viable.of_append
  · rw [List.append_assoc] at sentence
    obtain ⟨value, rest, ⟨d⟩, -, -⟩ := awaits.forced (⟨.openParen, opened⟩ :: (taken ++ more)) rfl
      sentence
    cases d with
    | group d =>
      obtain ⟨-, behind⟩ := read.unique stops same d (Rule.stops_closeParen _ _ _) fun _ => trivial
      rw [← behind] at same
      obtain ⟨tail, rfl⟩ := List.head?_eq_some_iff.1 same.symm
      exact other _ tail rfl

end Awaits
end ArithExpr
