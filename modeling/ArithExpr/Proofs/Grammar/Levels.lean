import ArithExpr.Proofs.Grammar.Exactness
import Mathlib.Data.Nat.Find

/-!
# The levels that a text needs

A text is answered in one of two ways: with fewer levels than it needs the answer is that they do
not suffice, with as many or more it no longer depends on them. Two facts about the rules of the
parser carry this: more levels only replace the answer that there are too few
(`Parser.read_agrees`), and one level more than there are tokens is always enough
(`Parser.read_enough`).

Main statement: the levels that an expression needs are those of its derivation
(`Expr.parse_threshold`), where a run needs the most that any of its operands needs behind the
operators before it (`Derivation.cost_run`).
-/

namespace ArithExpr
namespace Parser
variable {α β : Type}

/-- The answer that a limit does not suffice. -/
def TooDeep (limit : Nat) (answer : Except Error α) : Prop :=
  ∃ position, answer = fail (.nestingTooDeep limit) position

/-- An answer within a limit is the other one, unless it is that the limit does not suffice. -/
def Agrees (limit : Nat) (within beyond : Except Error α) : Prop :=
  TooDeep limit within ∨ within = beyond

/-- An answer agrees with itself. -/
lemma Agrees.refl {limit} (answer : Except Error α) : Agrees limit answer answer :=
  .inr rfl

/-- An answer that there are too few levels is the answer of whatever goes on with it. -/
lemma TooDeep.bind {limit} {answer : Except Error α} (deep : TooDeep limit answer)
    (next : α → Except Error β) : TooDeep limit (answer >>= next) := by
  obtain ⟨position, rfl⟩ := deep
  exact ⟨position, rfl⟩

/-- Answers that agree still do behind what goes on in the same way. -/
lemma Agrees.bind {limit} {within beyond : Except Error α} {next next' : α → Except Error β}
    (agrees : Agrees limit within beyond)
    (goesOn : ∀ value, within = .ok value → Agrees limit (next value) (next' value)) :
    Agrees limit (within >>= next) (beyond >>= next') := by
  obtain deep | rfl := agrees
  · exact .inl (deep.bind next)
  · cases within with
    | error error => exact .refl _
    | ok value => exact goesOn value rfl

/-- No answer that a limit does not suffice. -/
def Enough (answer : Except Error α) : Prop :=
  ∀ limit, ¬ TooDeep limit answer

/-- A value is no answer that there are too few levels. -/
lemma Enough.ok (value : α) : Enough (.ok value) := by
  rintro limit ⟨position, same⟩
  cases same

/-- Any other fault is no answer that there are too few levels. -/
lemma Enough.fail {fault : ParseFault} (other : ∀ limit, fault ≠ .nestingTooDeep limit)
    (position : Nat) : Enough (fail fault position : Except Error α) := by
  rintro limit ⟨_, same⟩
  cases same
  exact other limit rfl

/-- Levels that are enough for one part and for what goes on with it are enough for both. -/
lemma Enough.bind {answer : Except Error α} {next : α → Except Error β} (enough : Enough answer)
    (goesOn : ∀ value, answer = .ok value → Enough (next value)) : Enough (answer >>= next) := by
  cases answer with
  | error error =>
    rintro limit ⟨position, same⟩
    exact enough limit ⟨position, by cases same; rfl⟩
  | ok value => exact goesOn value rfl

variable {p : Parser}

/-- Reaching the tokens takes no levels. -/
lemma reach_enough (tokens : List Token) : Enough (p.reach tokens) := by
  unfold reach
  split
  next error _ =>
    rintro limit ⟨position, same⟩
    cases same
  next => exact .ok ()

/-- Closing a parenthesis takes no levels. -/
lemma close_enough (opened : Nat) (tokens : List Token) : Enough (p.close opened tokens) := by
  unfold close closing
  split
  next => exact .fail (by simp) _
  next position rest =>
    rw [map_eq_bind]
    exact ((reach_enough rest).bind fun _ _ => .ok _).bind fun _ _ => .ok _
  next => exact .fail (by simp) _

/-- Comparing the number of arguments takes no levels. -/
lemma called_enough (name : String) (position arity : Nat) (args : List Expr)
    (rest : List Token) : Enough (called name position arity args rest) := by
  unfold called
  split
  next => exact .ok _
  next => exact .fail (by simp) _

/-- The end of a text takes no levels. -/
lemma ended_enough (expr : Expr) (rest : List Token) : Enough (ended expr rest) := by
  unfold ended
  split
  next => exact .ok _
  next => exact .fail (by simp) _
  next => exact .fail (by simp) _

/-- The tokens that a rule takes at least. -/
def taken : Rule → Nat
  | .links _ _ => 0
  | .arguments => 0
  | .moreArguments => 0
  | _ => 1

/-- A rule that reads something takes as many tokens as it takes at least. -/
lemma taken_le_of_read {rule : Rule} {room tokens} {value : rule.Value} {rest}
    (ok : p.read rule room tokens = .ok (value, rest)) :
    rest.length + taken rule ≤ tokens.length := by
  cases rule
  all_goals
    obtain ⟨parsed, -, rfl⟩ := exists_of_map_out ok
    first
    | exact parsed.shorter
    | exact Nat.le_of_lt_succ parsed.shorter

/-- One level more than there are tokens is enough; what stands inside a power has taken that one
already. -/
theorem read_enough {rule : Rule} {room : Nat} {tokens : List Token}
    (room_gt : tokens.length < room + Derivation.spare rule) :
    Enough (p.read rule room tokens) := by
  induction rule, room, tokens using induct (p := p) with
  | chain level room tokens ihFirst ihLinks =>
    rw [read_chain]
    refine (ihFirst room_gt).bind fun first ok => ihLinks first.1 first.2 ok ?_
    have shorter := taken_le_of_read ok
    simp only [Derivation.spare, taken] at *
    omega
  | term room tokens ih =>
    rw [read_operand_sum]
    exact ih room_gt
  | factor room tokens ih =>
    rw [read_operand_product]
    exact ih room_gt
  | linksNil level left room =>
    rw [read_links_nil]
    exact .ok _
  | linksNone level left room token rest ends =>
    rw [read_links_none _ _ _ _ ends]
    exact .ok _
  | linksSome level left room token rest op joins ihRight ihMore =>
    simp only [Derivation.spare, List.length_cons] at *
    rw [read_links_some _ _ _ _ joins]
    refine (reach_enough rest).bind fun _ _ => (ihRight (by omega)).bind fun right ok =>
      ihMore right.1 right.2 ok ?_
    have shorter := taken_le_of_read ok
    simp only [taken] at shorter
    omega
  | powerZero tokens =>
    simp only [Derivation.spare] at room_gt
    omega
  | powerSucc room tokens ihBase ihExponent =>
    simp only [Derivation.spare] at *
    rw [read_power_succ]
    refine (ihBase (by omega)).bind fun base ok => ?_
    obtain ⟨base, behind⟩ := base
    show Enough (p.exponent base room behind)
    unfold exponent
    split
    next position rest =>
      have shorter := taken_le_of_read ok
      simp only [taken, List.length_cons] at shorter
      exact (reach_enough rest).bind fun _ _ =>
        (ihExponent base position rest ok (by omega)).bind fun _ _ => .ok _
    next => exact .ok _
  | unaryNil room ih =>
    rw [read_unary_nil]
    exact ih room_gt
  | unaryNone room token rest unsigned ih =>
    rw [read_unary_none _ _ _ unsigned]
    exact ih room_gt
  | unarySome room token rest sign signed ih =>
    simp only [Derivation.spare, List.length_cons] at *
    rw [read_unary_some _ _ _ signed]
    refine (reach_enough rest).bind fun _ _ => ?_
    cases room with
    | zero => omega
    | succ room => exact (ih room (by omega)).bind fun _ _ => .ok _
  | primaryNil room =>
    rw [read_primary_nil]
    exact .fail (by simp) _
  | primaryNumber room value position rest =>
    rw [read_primary_number]
    exact (reach_enough rest).bind fun _ _ => .ok _
  | primaryOpenParen room opened rest ih =>
    simp only [Derivation.spare, List.length_cons] at *
    rw [read_primary_openParen]
    exact (reach_enough rest).bind fun _ _ => (ih (by omega)).bind fun _ _ =>
      (close_enough _ _).bind fun _ _ => .ok _
  | primaryName room name position rest ih =>
    simp only [Derivation.spare, List.length_cons] at *
    rw [read_primary_name]
    exact (reach_enough rest).bind fun _ _ => ih (by omega)
  | primaryOperator room op position rest =>
    rw [read_primary_operator]
    exact (reach_enough rest).bind fun _ _ => .fail (by simp) _
  | primaryCloseParen room position rest =>
    rw [read_primary_closeParen]
    exact (reach_enough rest).bind fun _ _ => .fail (by simp) _
  | primaryComma room position rest =>
    rw [read_primary_comma]
    exact (reach_enough rest).bind fun _ _ => .fail (by simp) _
  | callUnknown name position room tokens unknown =>
    rw [read_call_unknown _ _ _ unknown]
    exact .fail (by simp) _
  | callOpenParen name position room arity opened rest known ih =>
    simp only [Derivation.spare, List.length_cons] at *
    rw [read_call_openParen _ _ _ known]
    exact (reach_enough rest).bind fun _ _ => (ih (by omega)).bind fun _ _ =>
      (close_enough _ _).bind fun _ _ => called_enough _ _ _ _ _
  | callOther name position room arity tokens known other =>
    rw [read_call_other _ _ _ known other]
    exact .fail (by simp) _
  | argumentsCloseParen room position rest =>
    rw [read_arguments_closeParen]
    exact .ok _
  | argumentsOther room tokens other ihFirst ihMore =>
    rw [read_arguments_other _ _ _ other]
    refine (ihFirst room_gt).bind fun first ok => ?_
    have shorter := taken_le_of_read ok
    simp only [Derivation.spare, taken] at *
    exact (ihMore first.1 first.2 ok (by omega)).bind fun _ _ => .ok _
  | moreComma room position rest ihArg ihMore =>
    simp only [Derivation.spare, List.length_cons] at *
    rw [read_moreArguments_comma]
    refine (reach_enough rest).bind fun _ _ => (ihArg (by omega)).bind fun arg ok => ?_
    have shorter := taken_le_of_read ok
    simp only [taken] at shorter
    exact (ihMore arg.1 arg.2 ok (by omega)).bind fun _ _ => .ok _
  | moreOther room tokens other =>
    rw [read_moreArguments_other _ _ _ other]
    exact .ok _

/-- The parser with another limit. -/
def within (p : Parser) (limit : Nat) : Parser :=
  { p with limit }

/-- More levels only replace the answer that there are too few. -/
theorem read_agrees {rule : Rule} {room : Nat} {tokens : List Token} (limit : Nat) {room'}
    (more : room ≤ room') :
    Agrees p.limit (p.read rule room tokens) ((p.within limit).read rule room' tokens) := by
  -- a larger limit changes neither the functions nor what stands behind the tokens
  have reach_within (tokens) : (p.within limit).reach tokens = p.reach tokens := rfl
  have close_within (opened tokens) :
      (p.within limit).close opened tokens = p.close opened tokens := rfl
  induction rule, room, tokens using induct (p := p) generalizing room' with
  | chain level room tokens ihFirst ihLinks =>
    rw [read_chain, read_chain]
    exact (ihFirst more).bind fun first ok => ihLinks first.1 first.2 ok more
  | term room tokens ih =>
    rw [read_operand_sum, read_operand_sum]
    exact ih more
  | factor room tokens ih =>
    rw [read_operand_product, read_operand_product]
    exact ih more
  | linksNil level left room =>
    rw [read_links_nil, read_links_nil]
    exact .refl _
  | linksNone level left room token rest ends =>
    rw [read_links_none _ _ _ _ ends, read_links_none _ _ _ _ ends]
    exact .refl _
  | linksSome level left room token rest op joins ihRight ihMore =>
    have fewer : room - 1 ≤ room' - 1 := Nat.sub_le_sub_right more 1
    rw [read_links_some _ _ _ _ joins, read_links_some _ _ _ _ joins, reach_within]
    exact (Agrees.refl _).bind fun _ _ => (ihRight fewer).bind fun right ok =>
      ihMore right.1 right.2 ok fewer
  | powerZero tokens =>
    rw [read_power_zero]
    exact .inl ⟨_, rfl⟩
  | powerSucc room tokens ihBase ihExponent =>
    obtain ⟨room', rfl⟩ := Nat.exists_eq_add_one_of_ne_zero (Nat.ne_zero_of_lt more)
    rw [read_power_succ, read_power_succ]
    refine (ihBase (Nat.le_of_succ_le_succ more)).bind fun base ok => ?_
    obtain ⟨base, behind⟩ := base
    show Agrees p.limit (p.exponent base room behind) ((p.within limit).exponent base room' behind)
    unfold exponent
    split
    next position rest =>
      rw [reach_within]
      exact (Agrees.refl _).bind fun _ _ =>
        (ihExponent base position rest ok (Nat.le_of_succ_le_succ more)).bind fun _ _ => .refl _
    next => exact .refl _
  | unaryNil room ih =>
    rw [read_unary_nil, read_unary_nil]
    exact ih more
  | unaryNone room token rest unsigned ih =>
    rw [read_unary_none _ _ _ unsigned, read_unary_none _ _ _ unsigned]
    exact ih more
  | unarySome room token rest sign signed ih =>
    rw [read_unary_some _ _ _ signed, read_unary_some _ _ _ signed, reach_within]
    refine (Agrees.refl _).bind fun _ _ => ?_
    cases room with
    | zero => exact .inl ⟨_, rfl⟩
    | succ room =>
      obtain ⟨room', rfl⟩ := Nat.exists_eq_add_one_of_ne_zero (Nat.ne_zero_of_lt more)
      exact (ih room (Nat.le_of_succ_le_succ more)).bind fun _ _ => .refl _
  | primaryNil room =>
    rw [read_primary_nil, read_primary_nil]
    exact .refl _
  | primaryNumber room value position rest =>
    rw [read_primary_number, read_primary_number, reach_within]
    exact .refl _
  | primaryOpenParen room opened rest ih =>
    rw [read_primary_openParen, read_primary_openParen, reach_within]
    refine (Agrees.refl _).bind fun _ _ => (ih more).bind fun inner _ => ?_
    rw [close_within]
    exact .refl _
  | primaryName room name position rest ih =>
    rw [read_primary_name, read_primary_name, reach_within]
    exact (Agrees.refl _).bind fun _ _ => ih more
  | primaryOperator room op position rest =>
    rw [read_primary_operator, read_primary_operator, reach_within]
    exact .refl _
  | primaryCloseParen room position rest =>
    rw [read_primary_closeParen, read_primary_closeParen, reach_within]
    exact .refl _
  | primaryComma room position rest =>
    rw [read_primary_comma, read_primary_comma, reach_within]
    exact .refl _
  | callUnknown name position room tokens unknown =>
    rw [read_call_unknown p _ _ unknown, read_call_unknown (p.within limit) _ _ unknown]
    exact .refl _
  | callOpenParen name position room arity opened rest known ih =>
    rw [read_call_openParen p _ _ known, read_call_openParen (p.within limit) _ _ known,
      reach_within]
    refine (Agrees.refl _).bind fun _ _ => (ih more).bind fun args _ => ?_
    rw [close_within]
    exact .refl _
  | callOther name position room arity tokens known other =>
    rw [read_call_other p _ _ known other, read_call_other (p.within limit) _ _ known other]
    exact .refl _
  | argumentsCloseParen room position rest =>
    rw [read_arguments_closeParen, read_arguments_closeParen]
    exact .refl _
  | argumentsOther room tokens other ihFirst ihMore =>
    rw [read_arguments_other _ _ _ other, read_arguments_other _ _ _ other]
    exact (ihFirst more).bind fun first ok =>
      (ihMore first.1 first.2 ok more).bind fun _ _ => .refl _
  | moreComma room position rest ihArg ihMore =>
    rw [read_moreArguments_comma, read_moreArguments_comma, reach_within]
    exact (Agrees.refl _).bind fun _ _ => (ihArg more).bind fun arg ok =>
      (ihMore arg.1 arg.2 ok more).bind fun _ _ => .refl _
  | moreOther room tokens other =>
    rw [read_moreArguments_other _ _ _ other, read_moreArguments_other _ _ _ other]
    exact .refl _

/-- More levels only replace the answer that a limit does not suffice for all tokens. -/
lemma whole_agrees (tokens : List Token) {limit : Nat} (more : p.limit ≤ limit) :
    Agrees p.limit (p.whole tokens) ((p.within limit).whole tokens) := by
  cases tokens with
  | nil => exact .refl _
  | cons token rest =>
    rw [whole_cons, whole_cons]
    exact (read_agrees limit more).bind fun _ _ => .refl _

/-- One level more than there are tokens is enough for all of them. -/
lemma whole_enough {tokens : List Token} (room : tokens.length < p.limit) :
    Enough (p.whole tokens) := by
  cases tokens with
  | nil => exact (reach_enough []).bind fun _ _ => .fail (by simp) _
  | cons token rest =>
    rw [whole_cons]
    exact (read_enough room).bind fun _ _ => ended_enough _ _

end Parser

namespace Derivation

/-- The levels of the operands of a run behind the first one. -/
def laterCosts : {rule : Rule} → {value : rule.Value} → {tokens rest : List Token} →
    Derivation rule value tokens rest → List Nat
  | _, _, _, _, link _ right more => right.cost :: more.laterCosts
  | _, _, _, _, _ => []

/-- Levels are enough for the rest of a run if they are for each operand behind its operators. -/
lemma cost_links_le_iff {level left tree tokens rest}
    (links : Derivation (.links level left) tree tokens rest) (levels : Nat) :
    links.cost ≤ levels ↔
      ∀ i cost, links.laterCosts[i]? = some cost → i + 1 + cost ≤ levels := by
  cases links with
  | done => simp [cost, laterCosts]
  | link joins right more =>
    simp only [cost, laterCosts]
    constructor
    · intro room i c operand
      cases i with
      | zero =>
        cases operand
        omega
      | succ i =>
        have later := (cost_links_le_iff more (levels - 1)).1 (by omega) i c operand
        omega
    · intro each
      have first := each 0 right.cost rfl
      have later : more.cost ≤ levels - 1 := by
        refine (cost_links_le_iff more (levels - 1)).2 fun i c operand => ?_
        have := each (i + 1) c operand
        omega
      omega

/-- Levels are enough for a run if they are for each operand behind its operators. -/
lemma cost_run_le_iff {level first tree tokens middle rest}
    (operand : Derivation (.operand level) first tokens middle)
    (links : Derivation (.links level first) tree middle rest) (levels : Nat) :
    (chain operand links).cost ≤ levels ↔
      ∀ i cost, (operand.cost :: links.laterCosts)[i]? = some cost → i + cost ≤ levels := by
  rw [cost, Nat.max_le, cost_links_le_iff]
  constructor
  · rintro ⟨room, later⟩ i c same
    cases i with
    | zero =>
      cases same
      omega
    | succ i => exact later i c same
  · intro each
    have room := each 0 operand.cost rfl
    exact ⟨by omega, fun i c same => each (i + 1) c same⟩

/-- A run takes the most levels that one of its operands takes behind the operators before it. -/
theorem cost_run {level first tree tokens middle rest}
    (operand : Derivation (.operand level) first tokens middle)
    (links : Derivation (.links level first) tree middle rest) :
    ((operand.cost :: links.laterCosts).mapIdx fun i cost => i + cost).max? =
      some (chain operand links).cost := by
  obtain ⟨most, found⟩ : ∃ most,
      ((operand.cost :: links.laterCosts).mapIdx fun i cost => i + cost).max? = some most := by
    rw [List.mapIdx_cons, List.max?_cons']
    exact ⟨_, rfl⟩
  have bounds (levels : Nat) : most ≤ levels ↔ (chain operand links).cost ≤ levels := by
    rw [cost_run_le_iff, List.max?_le_iff found]
    simp only [List.mem_mapIdx, List.getElem?_eq_some_iff]
    constructor
    · rintro each i c ⟨lt, rfl⟩
      exact each _ ⟨i, lt, rfl⟩
    · rintro each _ ⟨i, lt, rfl⟩
      exact each i _ ⟨lt, rfl⟩
  rw [found, Nat.le_antisymm ((bounds _).2 (Nat.le_refl _)) ((bounds _).1 (Nat.le_refl _))]

end Derivation

namespace Expr

/-- The levels of its derivation are enough for an expression that is found. -/
lemma exists_derivation_of_parse {context limit text expr}
    (ok : parse context limit text = .ok expr) :
    ∃ d : Derivation (.chain .sum) expr (Tokens.ofText text).list [],
      d.cost ≤ limit ∧ parse context d.cost text = .ok expr := by
  obtain ⟨⟨d, cost⟩, called, -, -⟩ := Parser.whole_sound ok
  obtain ⟨stop, finish⟩ := (DerivedFrom.of_parse ok).exists_finish
  exact ⟨d, cost, Parser.whole_complete finish d (Nat.le_refl _) (called _ List.mem_cons_self)⟩

/-- A larger limit only replaces the answer that the smaller one does not suffice. -/
lemma parse_agrees (context : Context) (text : String) {limit limit' : Nat}
    (more : limit ≤ limit') :
    Parser.Agrees limit (parse context limit text) (parse context limit' text) :=
  Parser.whole_agrees (p := ⟨context, limit, (Tokens.ofText text).ending⟩) _ more

/-- A limit above the length of a text is enough. -/
lemma parse_enough (context : Context) {text : String} {limit : Nat}
    (room : text.length < limit) : Parser.Enough (parse context limit text) :=
  Parser.whole_enough (Nat.lt_of_le_of_lt (Tokens.length_ofText_le text) room)

/-- Below the levels that a text needs the answer is that they do not suffice. From there on it is
always the same, and an expression that is found needs the levels of its derivation, in which a run
takes the most that one of its operands takes behind the operators before it. -/
theorem parse_threshold (context : Context) (text : String) :
    (∃ levels ≤ text.length + 1, ∃ answer,
      (∀ limit < levels, Parser.TooDeep limit (parse context limit text)) ∧
      (∀ limit ≥ levels, parse context limit text = answer) ∧
      Parser.Enough answer ∧
      ∀ expr, answer = .ok expr →
        Nonempty (Derivation (.chain .sum) expr (Tokens.ofText text).list []) ∧
        ∀ d : Derivation (.chain .sum) expr (Tokens.ofText text).list [], d.cost = levels) ∧
    ∀ {level first tree tokens middle rest}
      (operand : Derivation (.operand level) first tokens middle)
      (links : Derivation (.links level first) tree middle rest),
      ((operand.cost :: links.laterCosts).mapIdx fun i cost => i + cost).max? =
        some (Derivation.chain operand links).cost := by
  classical
  refine ⟨?_, Derivation.cost_run⟩
  have last : ¬ Parser.TooDeep (text.length + 1) (parse context (text.length + 1) text) :=
    parse_enough context (Nat.lt_succ_self _) _
  have some_limit : ∃ limit, ¬ Parser.TooDeep limit (parse context limit text) := ⟨_, last⟩
  -- the levels that the text needs are the least ones that suffice
  let levels := Nat.find some_limit
  have least {limit : Nat} : ¬ Parser.TooDeep limit (parse context limit text) → levels ≤ limit :=
    Nat.find_min' some_limit
  have same {limit : Nat} (more : levels ≤ limit) :
      parse context limit text = parse context levels text := by
    obtain deep | same := parse_agrees context text more
    · exact absurd deep (Nat.find_spec some_limit)
    · exact same.symm
  refine ⟨levels, least last, parse context levels text, ?_, fun limit => same, ?_, ?_⟩
  · intro limit less
    exact not_not.1 (Nat.find_min some_limit less)
  · rw [← same (least last)]
    exact parse_enough context (Nat.lt_succ_self _)
  · intro expr ok
    obtain ⟨d, cost, found⟩ := exists_derivation_of_parse ok
    refine ⟨⟨d⟩, fun d' => ?_⟩
    have unique : d'.cost = d.cost := (d'.unique d trivial trivial trivial trivial).2.2
    have needed : levels ≤ d.cost := least (by rw [found]; exact Parser.Enough.ok expr _)
    omega

end Expr
end ArithExpr
