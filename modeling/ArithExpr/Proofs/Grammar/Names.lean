import ArithExpr.Proofs.Expr.Names
import ArithExpr.Proofs.Grammar.Traversal

/-!
# Contexts that agree on the names among the tokens

The parser asks a context only for names that stand among the tokens, also where it finds an error.
Each rule leaves the back of the tokens that it starts with, so two contexts that agree on the names
there agree on all names that the rules behind it meet. Main statement: a rule reads the same in
both contexts (`Parser.read_alike`), and so do all rules together (`Parser.whole_congr`).
-/

namespace ArithExpr
open Context (AgreeOn)
variable {α β : Type}

/-- The name that a word is. -/
def Lexeme.name? : Lexeme → Option String
  | .name text => some text
  | _ => none

/-- The names among some tokens. -/
def namesIn (tokens : List Token) : List String :=
  tokens.filterMap fun token => token.value.name?

/-- A name is among some tokens if one of them is that name. -/
lemma mem_namesIn {tokens : List Token} {name} :
    name ∈ namesIn tokens ↔ ∃ position, ⟨.name name, position⟩ ∈ tokens := by
  rw [namesIn, List.mem_filterMap]
  constructor
  · rintro ⟨⟨lexeme, position⟩, mem, same⟩
    cases lexeme with
    | name other =>
      cases same
      exact ⟨position, mem⟩
    | _ => cases same
  · rintro ⟨position, mem⟩
    exact ⟨_, mem, rfl⟩

/-- The back of some tokens has no other names than they have. -/
lemma namesIn_subset {tokens rest : List Token} (suffix : rest <:+ tokens) :
    namesIn rest ⊆ namesIn tokens :=
  (suffix.sublist.filterMap _).subset

namespace Expr

/-- The names called in a list are those among its words. -/
lemma calleesAll_eq_namesIn {args : List Expr}
    (each : ∀ arg ∈ args, arg.callees = namesIn arg.tokens) :
    calleesAll args = namesIn (tokensAll args) := by
  induction args with
  | nil => rfl
  | cons arg args ih =>
    obtain ⟨first, others⟩ := List.forall_mem_cons.1 each
    rw [calleesAll, tokensAll, namesIn, List.filterMap_append, first, ih others]
    rfl

/-- The names called in an expression are those among its words. -/
lemma callees_eq_namesIn (expr : Expr) : expr.callees = namesIn expr.tokens := by
  induction expr with
  | number => rfl
  | unary sign operand position ih => exact ih
  | binary op left right position ihLeft ihRight =>
    rw [callees, tokens, namesIn, List.filterMap_append, ihLeft, ihRight]
    rfl
  | call name args position ih =>
    rw [callees, calleesAll_eq_namesIn ih]
    rfl

/-- What is called in an expression that is read stands in its text. -/
lemma callees_subset_of_parse {context limit text expr} (ok : parse context limit text = .ok expr) :
    expr.callees ⊆ namesIn (Tokens.ofText text).list := by
  rw [callees_eq_namesIn, tokens_of_parse ok]
  exact (List.filter_sublist.filterMap _).subset

end Expr

/-- The name that a rule goes on with. -/
def Rule.callee : Rule → List String
  | .call name _ => [name]
  | _ => []

namespace Parser

/-- Equal answers, which leave the back of the tokens if they have read something. -/
def Alike (tokens : List Token) (answer answer' : Except Error (α × List Token)) : Prop :=
  answer = answer' ∧ ∀ value rest, answer = .ok (value, rest) → rest <:+ tokens

namespace Alike
variable {tokens rest : List Token} {answer answer' : Except Error (α × List Token)}

/-- A value that is found without taking a token is alike. -/
lemma ok (value : α) (tokens : List Token) :
    Alike tokens (.ok (value, tokens)) (.ok (value, tokens)) := by
  refine ⟨rfl, fun value' rest same => ?_⟩
  cases same
  exact List.suffix_refl tokens

/-- A fault is alike whatever the tokens are. -/
lemma fail (fault : ParseFault) (position : Nat) :
    Alike (α := α) tokens (fail fault position) (fail fault position) :=
  ⟨rfl, nofun⟩

/-- What leaves the back of some tokens leaves the back of more. -/
lemma mono (alike : Alike rest answer answer') (suffix : rest <:+ tokens) :
    Alike tokens answer answer' :=
  ⟨alike.1, fun value behind ok => (alike.2 value behind ok).trans suffix⟩

/-- Equal answers stay equal behind what goes on alike. -/
lemma bind {next next' : α × List Token → Except Error (β × List Token)}
    (alike : Alike tokens answer answer')
    (goesOn : ∀ value rest, answer = .ok (value, rest) → rest <:+ tokens →
      Alike rest (next (value, rest)) (next' (value, rest))) :
    Alike tokens (answer >>= next) (answer' >>= next') := by
  obtain ⟨rfl, leaves⟩ := alike
  cases answer with
  | error error => exact ⟨rfl, nofun⟩
  | ok out => exact (goesOn out.1 out.2 rfl (leaves _ _ rfl)).mono (leaves _ _ rfl)

end Alike

/-- The parser with other functions. -/
def calling (p : Parser) (context : Context) : Parser :=
  { p with context }

variable {p : Parser} {context : Context} {tokens rest : List Token}

/-- What is read behind a token leaves the back of what starts with it. -/
lemma Alike.behind {answer answer' : Except Error (α × List Token)} (token : Token)
    (alike : Alike rest answer answer') :
    Alike (token :: rest) (p.reach rest >>= fun _ => answer)
      ((p.calling context).reach rest >>= fun _ => answer') := by
  show Alike _ (p.reach rest >>= fun _ => answer) (p.reach rest >>= fun _ => answer')
  cases p.reach rest with
  | error error => exact ⟨rfl, nofun⟩
  | ok _ => exact alike.mono (List.suffix_cons token rest)

/-- What is read behind a closing parenthesis leaves the back of what starts with it. -/
lemma Alike.close {next next' : List Token → Except Error (α × List Token)} (opened : Nat)
    (goesOn : ∀ rest, Alike rest (next rest) (next' rest)) :
    Alike tokens (p.close opened tokens >>= next)
      ((p.calling context).close opened tokens >>= next') := by
  show Alike _ (p.close opened tokens >>= next) (p.close opened tokens >>= next')
  cases closed : p.close opened tokens with
  | error error => exact ⟨rfl, nofun⟩
  | ok rest =>
    obtain ⟨position, rfl, -⟩ := close_eq_ok closed
    exact (goesOn rest).mono (List.suffix_cons _ rest)

/-- The end of a call is alike. -/
lemma called_alike (name : String) (position arity : Nat) (args : List Expr)
    (rest : List Token) :
    Alike rest (called name position arity args rest) (called name position arity args rest) := by
  unfold called
  split
  next => exact .ok _ rest
  next => exact .fail _ _

/-- A rule reads the same with other functions if they agree on the name that it goes on with and on
those among the tokens. -/
theorem read_alike {rule : Rule} {room : Nat} {tokens : List Token}
    (agree : AgreeOn (rule.callee ++ namesIn tokens) p.context context) :
    Alike tokens (p.read rule room tokens) ((p.calling context).read rule room tokens) := by
  induction rule, room, tokens using induct (p := p) with
  | chain level room tokens ihFirst ihLinks =>
    rw [read_chain, read_chain]
    exact (ihFirst agree).bind fun first rest ok suffix =>
      ihLinks first rest ok (agree.mono (namesIn_subset suffix))
  | term room tokens ih =>
    rw [read_operand_sum, read_operand_sum]
    exact ih agree
  | factor room tokens ih =>
    rw [read_operand_product, read_operand_product]
    exact ih agree
  | linksNil level left room =>
    rw [read_links_nil, read_links_nil]
    exact .ok _ _
  | linksNone level left room token rest ends =>
    rw [read_links_none _ _ _ _ ends, read_links_none _ _ _ _ ends]
    exact .ok _ _
  | linksSome level left room token rest op joins ihRight ihMore =>
    have agreeRest := agree.mono (namesIn_subset (List.suffix_cons token rest))
    rw [read_links_some _ _ _ _ joins, read_links_some _ _ _ _ joins]
    exact ((ihRight agreeRest).bind fun right behind ok suffix =>
      ihMore right behind ok (agreeRest.mono (namesIn_subset suffix))).behind token
  | powerZero tokens =>
    rw [read_power_zero, read_power_zero]
    exact .fail _ _
  | powerSucc room tokens ihBase ihExponent =>
    rw [read_power_succ, read_power_succ]
    refine (ihBase agree).bind fun base behind ok suffix => ?_
    show Alike behind (p.exponent base room behind) ((p.calling context).exponent base room behind)
    unfold exponent
    split
    next position rest =>
      have agreeRest := agree.mono (namesIn_subset ((List.suffix_cons _ rest).trans suffix))
      refine Alike.behind _ ((ihExponent base position rest ok agreeRest).bind fun _ _ _ _ => ?_)
      exact .ok _ _
    next => exact .ok _ _
  | unaryNil room ih =>
    rw [read_unary_nil, read_unary_nil]
    exact ih agree
  | unaryNone room token rest unsigned ih =>
    rw [read_unary_none _ _ _ unsigned, read_unary_none _ _ _ unsigned]
    exact ih agree
  | unarySome room token rest sign signed ih =>
    have agreeRest := agree.mono (namesIn_subset (List.suffix_cons token rest))
    rw [read_unary_some _ _ _ signed, read_unary_some _ _ _ signed]
    refine Alike.behind token ?_
    cases room with
    | zero => exact .fail _ _
    | succ room => exact (ih room agreeRest).bind fun _ _ _ _ => .ok _ _
  | primaryNil room =>
    rw [read_primary_nil, read_primary_nil]
    exact .fail _ _
  | primaryNumber room value position rest =>
    rw [read_primary_number, read_primary_number]
    exact (Alike.ok _ rest).behind _
  | primaryOpenParen room opened rest ih =>
    rw [read_primary_openParen, read_primary_openParen]
    exact ((ih agree).bind fun inner behind _ _ =>
      .close opened fun _ => .ok _ _).behind _
  | primaryName room name position rest ih =>
    -- the name is now the one that the rule goes on with
    rw [read_primary_name, read_primary_name]
    exact (ih agree).behind _
  | primaryOperator room op position rest =>
    rw [read_primary_operator, read_primary_operator]
    exact (Alike.fail _ _).behind _
  | primaryCloseParen room position rest =>
    rw [read_primary_closeParen, read_primary_closeParen]
    exact (Alike.fail _ _).behind _
  | primaryComma room position rest =>
    rw [read_primary_comma, read_primary_comma]
    exact (Alike.fail _ _).behind _
  | callUnknown name position room tokens unknown =>
    have same := Context.arity?_congr (AgreeOn.cons_iff.1 agree).1
    rw [read_call_unknown p _ _ unknown,
      read_call_unknown (p.calling context) _ _ (same.symm.trans unknown)]
    exact .fail _ _
  | callOpenParen name position room arity opened rest known ih =>
    obtain ⟨same, agreeTokens⟩ := AgreeOn.cons_iff.1 agree
    have known' := (Context.arity?_congr same).symm.trans known
    rw [read_call_openParen p _ _ known, read_call_openParen (p.calling context) _ _ known']
    exact ((ih agreeTokens).bind fun args behind _ _ =>
      .close opened fun rest => called_alike name position arity args rest).behind _
  | callOther name position room arity tokens known other =>
    have same := Context.arity?_congr (AgreeOn.cons_iff.1 agree).1
    rw [read_call_other p _ _ known other,
      read_call_other (p.calling context) _ _ (same.symm.trans known) other]
    exact .fail _ _
  | argumentsCloseParen room position rest =>
    rw [read_arguments_closeParen, read_arguments_closeParen]
    exact .ok _ _
  | argumentsOther room tokens other ihFirst ihMore =>
    rw [read_arguments_other _ _ _ other, read_arguments_other _ _ _ other]
    exact (ihFirst agree).bind fun first behind ok suffix =>
      (ihMore first behind ok (agree.mono (namesIn_subset suffix))).bind fun _ _ _ _ =>
        .ok _ _
  | moreComma room position rest ihArg ihMore =>
    have agreeRest : AgreeOn (namesIn rest) p.context context := agree
    rw [read_moreArguments_comma, read_moreArguments_comma]
    refine Alike.behind _ ((ihArg agree).bind fun arg behind ok suffix =>
      (ihMore arg behind ok (agreeRest.mono (namesIn_subset suffix))).bind fun _ _ _ _ => ?_)
    exact .ok _ _
  | moreOther room tokens other =>
    rw [read_moreArguments_other _ _ _ other, read_moreArguments_other _ _ _ other]
    exact .ok _ _

/-- All tokens are read the same with other functions if they agree on the names among them. -/
theorem whole_congr {tokens : List Token} (agree : AgreeOn (namesIn tokens) p.context context) :
    p.whole tokens = (p.calling context).whole tokens := by
  cases tokens with
  | nil => rfl
  | cons token rest =>
    have alike : Alike _ (p.read (.chain .sum) p.limit (token :: rest)) _ := read_alike agree
    rw [whole_cons, whole_cons, alike.1]
    rfl

end Parser

/-- A text is read the same with other functions if they agree on the names in it. -/
theorem Expr.parse_congr {context context' : Context} {text : String}
    (agree : AgreeOn (namesIn (Tokens.ofText text).list) context context') (limit : Nat) :
    parse context limit text = parse context' limit text :=
  Parser.whole_congr agree

end ArithExpr
