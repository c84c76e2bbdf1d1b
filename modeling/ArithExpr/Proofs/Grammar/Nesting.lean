import ArithExpr.Function.Standard
import ArithExpr.Proofs.Grammar.Counting

/-!
# The depth that a parser stands at

A parser that counts never overflows, comes back to the depth that it started at, and answers what
the parser answers that is told how many levels are left. What carries this through the rules is how
many levels deeper it may go before the next token (`Parser.At`): stepping past a token gains one,
going deeper takes one. The operators of a run go deeper without a look at the limit, but only
behind an operand, which has found a level left. Main statement: `Expr.parse_counts`.
-/

namespace ArithExpr

/-- A tally of a run that started at a counter: the depth is within a limit, and from the start it
has grown by no more than one and the tokens stepped past. -/
def Tally.Within (limit : Nat) (start : Counter) (tally : Tally) : Prop :=
  tally.depth ≤ limit ∧ tally.depth + start.consumed ≤ tally.consumed + start.depth + 1

/-- The levels that a rule may go deeper before it steps past a token. -/
def Rule.gain : Rule → Nat
  | .unary => 0
  | .primary => 0
  | .call _ _ => 0
  | _ => 1

/-- No rule may go more than one level deeper before it steps past a token. -/
lemma Rule.gain_le_one (rule : Rule) : rule.gain ≤ 1 := by
  cases rule <;> simp [gain]

namespace Parser
variable {p : Parser} {start counter : Counter} {gain room : Nat}

/-- A run that started at a counter stands where some levels are left, and may go some levels deeper
before it steps past a token. -/
structure At (p : Parser) (start : Counter) (gain room : Nat) (counter : Counter) : Prop where
  levels : counter.depth + room = p.limit
  paid : counter.depth + gain + start.consumed ≤ counter.consumed + start.depth + 1
  within : ∃ noted, counter.trail = noted ++ start.trail ∧
    ∀ tally ∈ noted, tally.Within p.limit start

/-- A run that started at a counter stands where some levels are left, or deeper. -/
def Below (p : Parser) (start : Counter) (gain room : Nat) (counter : Counter) : Prop :=
  ∃ fewer ≤ room, p.At start gain fewer counter

namespace At

/-- Where a run starts. -/
lemma here (within : counter.depth ≤ p.limit) (le : gain ≤ 1) :
    p.At counter gain (p.limit - counter.depth) counter :=
  ⟨Nat.add_sub_of_le within, by omega, [], rfl, List.forall_mem_nil _⟩

/-- A run that may go some levels deeper may go fewer. -/
lemma mono (here : p.At start gain room counter) {gain'} (less : gain' ≤ gain) :
    p.At start gain' room counter := by
  have paid := here.paid
  exact ⟨here.levels, by omega, here.within⟩

/-- What was gained need not be used. -/
lemma drop (here : p.At start gain room counter) : p.At start 0 room counter :=
  here.mono (Nat.zero_le gain)

/-- A run that stands at some levels stands there or deeper. -/
lemma below (here : p.At start gain room counter) : p.Below start gain room counter :=
  ⟨room, Nat.le_refl room, here⟩

/-- A change from within bounds to within bounds may be noted. -/
lemma note (levels : counter.depth + room = p.limit)
    (paid : counter.depth + gain + start.consumed ≤ counter.consumed + start.depth + 1)
    (within : ∃ noted, counter.trail = noted ++ start.trail ∧
      ∀ tally ∈ noted, tally.Within p.limit start) :
    p.At start gain room counter.note := by
  obtain ⟨noted, same, within⟩ := within
  have last : counter.toTally.Within p.limit start := ⟨by omega, by omega⟩
  exact ⟨levels, paid, counter.toTally :: noted, congrArg (counter.toTally :: ·) same,
    List.forall_mem_cons.2 ⟨last, within⟩⟩

/-- A token gains a level. -/
lemma stepOn (here : p.At start gain room counter) : p.At start (gain + 1) room counter.stepOn := by
  have paid := here.paid
  refine note here.levels ?_ here.within
  show counter.depth + (gain + 1) + start.consumed ≤ counter.consumed + 1 + start.depth + 1
  omega

/-- Going deeper takes a level. -/
lemma deeper (here : p.At start (gain + 1) (room + 1) counter) :
    p.At start gain room (counter.moveTo (counter.depth + 1)) := by
  have levels := here.levels
  have paid := here.paid
  refine note ?_ ?_ here.within
  · show counter.depth + 1 + room = p.limit
    omega
  · show counter.depth + 1 + gain + start.consumed ≤ counter.consumed + start.depth + 1
    omega

end At

/-- What is deeper with some levels left is so with more. -/
lemma Below.mono (below : p.Below start gain room counter) {room'} (more : room ≤ room') :
    p.Below start gain room' counter :=
  below.imp fun _ there => ⟨Nat.le_trans there.1 more, there.2⟩

/-- Going back up to where some levels are left. -/
lemma Below.back (below : p.Below start gain room counter) {depth}
    (levels : depth + room = p.limit) : p.At start gain room (counter.moveTo depth) := by
  obtain ⟨fewer, le, here⟩ := below
  have deep := here.levels
  have paid := here.paid
  refine At.note levels ?_ here.within
  show depth + gain + start.consumed ≤ counter.consumed + start.depth + 1
  omega

end Parser

open ArithExpr.Parser (At Below)

namespace Counting
variable {α β : Type} {run : Counting α} {before after : Counter}

/-- Behind a run with a value the next one starts where that one ended. -/
lemma bind_of_ok {value : α} (ran : run before = some (.ok value, after))
    (next : α → Counting β) : (run >>= next) before = next value after := by
  show Option.bind (run before) _ = _
  rw [ran]
  rfl

/-- Behind a run with an error nothing else runs. -/
lemma bind_of_error {error : Error} (ran : run before = some (.error error, after))
    (next : α → Counting β) : (run >>= next) before = some (.error error, after) := by
  show Option.bind (run before) _ = _
  rw [ran]
  rfl

end Counting

/-- A run from a counter ends, with what an answer shows and with a counter of which something
holds. -/
def Counts {α β : Type} (before : Counter) (run : Counting α) (view : α → β)
    (answer : Except Error β) (ends : Counter → Prop) : Prop :=
  ∃ x after, run before = some (x, after) ∧ x.map view = answer ∧ ends after

namespace Counts
variable {α β γ δ : Type} {p : Parser} {largest gain room : Nat} {start before : Counter}
variable {view : α → β} {view' : γ → δ} {ends ends' : Counter → Prop} {answer : Except Error β}
variable {run : Counting α}

/-- A value ends where it is returned. -/
lemma ok (value : α) (here : ends before) :
    Counts before (pure value) view (.ok (view value)) ends :=
  ⟨.ok value, before, rfl, rfl, here⟩

/-- A fault ends where it is raised. -/
lemma fail (fault : ParseFault) (position : Nat) (here : ends before) :
    Counts before (Counting.answer (Parser.fail fault position)) view (Parser.fail fault position)
      ends :=
  ⟨_, before, rfl, rfl, here⟩

/-- A run that ends in some way ends in a weaker one. -/
lemma mono (counts : Counts before run view answer ends)
    (weaker : ∀ after, ends after → ends' after) : Counts before run view answer ends' := by
  obtain ⟨x, after, ran, same, here⟩ := counts
  exact ⟨x, after, ran, same, weaker after here⟩

/-- A run goes on where the one before it ended, with what that one shows. -/
lemma bind {next : α → Counting γ} {next' : β → Except Error δ}
    (counts : Counts before run view answer ends)
    (goesOn : ∀ value after, answer = .ok (view value) → ends after →
      Counts after (next value) view' (next' (view value)) ends')
    (failed : ∀ after, ends after → ends' after) :
    Counts before (run >>= next) view' (answer >>= next') ends' := by
  obtain ⟨x, after, ran, rfl, here⟩ := counts
  cases x with
  | error error => exact ⟨_, after, Counting.bind_of_error ran next, rfl, failed after here⟩
  | ok value =>
    obtain ⟨y, last, ranOn, same, here⟩ := goesOn value after rfl here
    exact ⟨y, last, (Counting.bind_of_ok ran next).trans ranOn, same, here⟩

/-- Another form of the value that shows the same. -/
lemma reshape {f : α → γ} {view' : γ → β} (same : ∀ value, view' (f value) = view value)
    (counts : Counts before run view answer ends) :
    Counts before (run >>= fun value => pure (f value)) view' answer ends := by
  obtain ⟨x, after, ran, rfl, here⟩ := counts
  cases x with
  | error error => exact ⟨_, after, Counting.bind_of_error ran _, rfl, here⟩
  | ok value =>
    exact ⟨_, after, Counting.bind_of_ok ran _, congrArg Except.ok (same value), here⟩

/-- What goes on behind a token goes on with a level gained. -/
lemma advance {rest : List Token} (here : p.At start gain room before)
    (lost : ∀ after, p.At start gain room after → ends after)
    (goesOn : p.At start (gain + 1) room before.stepOn →
      Counts before.stepOn run view answer ends) :
    Counts before (Counting.advance p rest >>= fun _ => run) view
      (p.reach rest >>= fun _ => answer) ends := by
  cases reached : p.reach rest with
  | error error =>
    have ran : Counting.advance p rest before = some (.error error, before) := by
      rw [Counting.advance, reached]
    exact ⟨_, before, Counting.bind_of_error ran _, rfl, lost before here⟩
  | ok _ =>
    have ran : Counting.advance p rest before = some (.ok (), before.stepOn) := by
      rw [Counting.advance, reached]
    obtain ⟨x, after, ranOn, same, here⟩ := goesOn here.stepOn
    exact ⟨x, after, (Counting.bind_of_ok ran _).trans ranOn, same, here⟩

/-- A level that is left can be gone down, since it has a number. -/
lemma raise (fits : p.limit ≤ largest) (here : p.At start (gain + 1) (room + 1) before)
    (goesOn : p.At start gain room (before.moveTo (before.depth + 1)) →
      Counts (before.moveTo (before.depth + 1)) run view answer ends) :
    Counts before (Counting.raise largest >>= fun _ => run) view answer ends := by
  have levels := here.levels
  have ran : Counting.raise largest before =
      some (.ok (), before.moveTo (before.depth + 1)) := by
    rw [Counting.raise, Counter.raise, if_pos (by omega)]
    rfl
  obtain ⟨x, after, ranOn, same, here⟩ := goesOn here.deeper
  exact ⟨x, after, (Counting.bind_of_ok ran _).trans ranOn, same, here⟩

/-- Without a level left the fault is that there are too few, and the counter stays within bounds.
-/
lemma tooDeep {tokens : List Token} {β : Type} {view : α → β} (here : p.At start gain 0 before) :
    Counts before (Counting.nested p largest tokens run) view (p.tooDeep tokens)
      (p.At start gain 0) := by
  have levels := here.levels
  refine ⟨p.tooDeep tokens, before, ?_, rfl, here⟩
  rw [Counting.nested, if_pos (by omega)]

/-- What is read one level deeper ends back where it started. -/
lemma nested {tokens : List Token} (fits : p.limit ≤ largest)
    (here : p.At start (gain + 1) (room + 1) before)
    (inner : p.At start gain room (before.moveTo (before.depth + 1)) →
      Counts (before.moveTo (before.depth + 1)) run view answer (p.At start gain room)) :
    Counts before (Counting.nested p largest tokens run) view answer
      (p.At start (gain + 1) (room + 1)) := by
  have levels := here.levels
  obtain ⟨x, behind, ran, same, there⟩ := inner here.deeper
  have deep := there.levels
  refine ⟨x, behind.moveTo (behind.depth - 1), ?_, same, ?_⟩
  · rw [Counting.nested, if_neg (by omega), Counter.raise, if_pos (by omega)]
    show Option.bind (run _) _ = _
    rw [ran]
    show Option.bind behind.lower _ = _
    rw [Counter.lower, if_neg (by omega)]
    rfl
  · have paid := there.paid
    refine At.note ?_ ?_ there.within
    · show behind.depth - 1 + (room + 1) = p.limit
      omega
    · show behind.depth - 1 + (gain + 1) + start.consumed ≤ behind.consumed + start.depth + 1
      omega

/-- A run of operands ends back where it started. -/
lemma restoring (here : p.At start gain room before)
    (inner : Counts before run view answer (p.Below start gain room)) :
    Counts before (Counting.restoring run) view answer (p.At start gain room) := by
  obtain ⟨x, behind, ran, same, below⟩ := inner
  refine ⟨x, behind.moveTo before.depth, ?_, same, below.back here.levels⟩
  show Option.bind (run before) _ = _
  rw [ran]
  rfl

/-- What goes on behind a closing parenthesis. -/
lemma closing {opened : Nat} {tokens : List Token} {next : Parsed Unit tokens.length → Counting α}
    {next' : List Token → Except Error β} (here : p.At start gain room before)
    (lost : ∀ after, p.At start gain room after → ends after)
    (goesOn : ∀ parsed after, p.At start gain room after →
      Counts after (next parsed) view (next' parsed.rest) ends) :
    Counts before (Counting.closing p opened tokens >>= next) view
      (p.close opened tokens >>= next') ends := by
  cases closed : p.closing opened tokens with
  | error error =>
    have ran : Counting.closing p opened tokens before = some (.error error, before) := by
      rw [Counting.closing, closed]
    rw [Parser.close, closed]
    exact ⟨_, before, Counting.bind_of_error ran _, rfl, lost before here⟩
  | ok parsed =>
    have ran : Counting.closing p opened tokens before = some (.ok parsed, before.stepOn) := by
      rw [Counting.closing, closed]
    obtain ⟨x, after, ranOn, same, there⟩ :=
      goesOn parsed before.stepOn (here.stepOn.mono (Nat.le_succ gain))
    rw [Parser.close, closed]
    exact ⟨x, after, (Counting.bind_of_ok ran _).trans ranOn, same, there⟩

end Counts

/-- A rule that goes on with an operator needs a level for it. -/
def Rule.MayGoOn : Rule → Nat → Prop
  | .links _ _, room => room ≠ 0
  | _, _ => True

/-- A rule ends where it started, but the operators of a run end deeper. -/
def Rule.EndsAt (p : Parser) (start : Counter) (room : Nat) : Rule → Counter → Prop
  | .links _ _ => p.Below start 1 room
  | rule => p.At start rule.gain room

/-- A rule that reads by itself may always go on. -/
lemma Rule.MayGoOn.of_ne_links {rule : Rule} {room}
    (whole : ∀ level left, rule ≠ .links level left) : rule.MayGoOn room := by
  cases rule with
  | links level left => exact absurd rfl (whole level left)
  | _ => trivial

/-- A rule that reads by itself ends where it started. -/
lemma Rule.EndsAt.of_ne_links {p start room} {rule : Rule} {after}
    (ends : rule.EndsAt p start room after) (whole : ∀ level left, rule ≠ .links level left) :
    p.At start rule.gain room after := by
  cases rule with
  | links level left => exact absurd rfl (whole level left)
  | _ => exact ends

namespace Parser
variable {p : Parser} {largest : Nat} {start : Counter}

/-- An operand is read only with a level left. -/
lemma room_ne_zero_of_operand {level room tokens out}
    (ok : p.read (.operand level) room tokens = .ok out) : room ≠ 0 := by
  rintro rfl
  cases level with
  | sum =>
    rw [read_operand_sum, read_chain, read_operand_product, read_power_zero] at ok
    cases ok
  | product =>
    rw [read_operand_product, read_power_zero] at ok
    cases ok

/-- A rule reads with a counter what it reads with the levels counted down, stays within bounds and
ends at the depth that it started at. -/
theorem read_counts (fits : p.limit ≤ largest) {rule : Rule} {room : Nat} {tokens : List Token}
    {before : Counter} (here : p.At start rule.gain room before) (may : rule.MayGoOn room) :
    Counts before (Counting.read p largest rule tokens) Parsed.out (p.read rule room tokens)
      (rule.EndsAt p start room) := by
  induction rule, room, tokens using induct (p := p) generalizing before with
  | chain level room tokens ihFirst ihLinks =>
    rw [read_chain, Counting.read, Counting.chain]
    refine .restoring here (.bind (ihFirst here trivial) (fun first after ok there => ?_)
      fun _ => At.below)
    exact (ihLinks first.value first.rest ok there (room_ne_zero_of_operand ok)).reshape
      fun _ => rfl
  | term room tokens ih =>
    rw [read_operand_sum, Counting.read, Counting.operand]
    exact ih here trivial
  | factor room tokens ih =>
    rw [read_operand_product, Counting.read, Counting.operand]
    exact ih here trivial
  | linksNil level left room =>
    rw [read_links_nil, Counting.read, Counting.links]
    exact .ok _ here.below
  | linksNone level left room token rest ends =>
    rw [read_links_none _ _ _ _ ends, Counting.read, Counting.links]
    simp only [ends]
    exact .ok _ here.below
  | linksSome level left room token rest op joins ihRight ihMore =>
    -- the operand before has found a level left, so that the operator may take it
    obtain ⟨room, rfl⟩ := Nat.exists_eq_add_one_of_ne_zero may
    rw [read_links_some _ _ _ _ joins, Counting.read, Counting.links]
    simp only [joins]
    have higher {after : Counter} (below : p.Below start 1 room after) :
        p.Below start 1 (room + 1) after := below.mono (Nat.le_succ room)
    refine .advance here (fun _ => At.below) fun there => .raise fits there fun deeper => ?_
    refine .bind (ihRight deeper trivial) (fun right after ok there => ?_)
      fun _ there => higher there.below
    exact ((ihMore right.value right.rest ok there (room_ne_zero_of_operand ok)).mono
      fun _ => higher).reshape fun _ => rfl
  | powerZero tokens =>
    rw [read_power_zero, Counting.read, Counting.power]
    exact .tooDeep here
  | powerSucc room tokens ihBase ihExponent =>
    rw [read_power_succ, Counting.read, Counting.power]
    refine .nested fits here fun deeper => .bind (ihBase deeper trivial)
      (fun base after ok there => ?_) fun _ => id
    obtain ⟨base, behind, shorter⟩ := base
    show Counts after _ Parsed.out (p.exponent base room behind) _
    simp only
    split
    next position rest =>
      rw [exponent]
      refine .advance there (fun _ => id) fun there => .bind
        (ihExponent base position rest ok there trivial) (fun exponent after _ there => ?_)
        fun _ => At.drop
      exact .ok _ there.drop
    next other =>
      rw [exponent]
      · exact .ok _ there
      · exact other
  | unaryNil room ih =>
    rw [read_unary_nil, Counting.read, Counting.unary]
    exact ih here trivial
  | unaryNone room token rest unsigned ih =>
    rw [read_unary_none _ _ _ unsigned, Counting.read, Counting.unary]
    simp only [unsigned]
    exact ih here trivial
  | unarySome room token rest sign signed ih =>
    rw [read_unary_some _ _ _ signed, Counting.read, Counting.unary]
    simp only [signed]
    refine .advance here (fun _ => id) fun there => ?_
    cases room with
    | zero => exact (Counts.tooDeep there).mono fun _ => At.drop
    | succ room =>
      refine (Counts.nested fits there fun deeper => .bind (ih room deeper trivial)
        (fun operand after _ there => ?_) fun _ => id).mono fun _ => At.drop
      exact .ok _ there
  | primaryNil room =>
    rw [read_primary_nil, Counting.read, Counting.primary]
    exact .fail _ _ here
  | primaryNumber room value position rest =>
    rw [read_primary_number, Counting.read, Counting.primary]
    exact .advance here (fun _ => id) fun there => .ok _ there.drop
  | primaryOpenParen room opened rest ih =>
    rw [read_primary_openParen, Counting.read, Counting.primary]
    refine .advance here (fun _ => id) fun there => .bind (ih there trivial)
      (fun inner after _ there => ?_) fun _ => At.drop
    refine .closing there (fun _ => At.drop) fun closed after there => ?_
    exact .ok _ there.drop
  | primaryName room name position rest ih =>
    rw [read_primary_name, Counting.read, Counting.primary]
    refine .advance here (fun _ => id) fun there => ?_
    exact (ih there.drop trivial).reshape fun _ => rfl
  | primaryOperator room op position rest =>
    rw [read_primary_operator, Counting.read, Counting.primary]
    · exact .advance here (fun _ => id) fun there => .fail _ _ there.drop
    all_goals simp
  | primaryCloseParen room position rest =>
    rw [read_primary_closeParen, Counting.read, Counting.primary]
    · exact .advance here (fun _ => id) fun there => .fail _ _ there.drop
    all_goals simp
  | primaryComma room position rest =>
    rw [read_primary_comma, Counting.read, Counting.primary]
    · exact .advance here (fun _ => id) fun there => .fail _ _ there.drop
    all_goals simp
  | callUnknown name position room tokens unknown =>
    rw [read_call_unknown _ _ _ unknown, Counting.read, Counting.call]
    simp only [unknown]
    exact .fail _ _ here
  | callOpenParen name position room arity opened rest known ih =>
    rw [read_call_openParen _ _ _ known, Counting.read, Counting.call]
    simp only [known]
    refine .advance here (fun _ => id) fun there => .bind (ih there trivial)
      (fun args after _ there => ?_) fun _ => At.drop
    refine .closing there (fun _ => At.drop) fun closed after there => ?_
    unfold called
    show Counts after (if args.value.length = arity then _ else _) _
      (if args.value.length = arity then _ else _) _
    split
    next => exact .ok _ there.drop
    next => exact .fail _ _ there.drop
  | callOther name position room arity tokens known other =>
    rw [read_call_other _ _ _ known other, Counting.read, Counting.call]
    simp only [known]
    exact .fail _ _ here
  | argumentsCloseParen room position rest =>
    rw [read_arguments_closeParen, Counting.read, Counting.arguments]
    exact .ok _ here
  | argumentsOther room tokens other ihFirst ihMore =>
    rw [read_arguments_other _ _ _ other, Counting.read, Counting.arguments]
    · refine .bind (ihFirst here trivial) (fun first after ok there => ?_) fun _ => id
      exact .bind (ihMore first.value first.rest ok there trivial)
        (fun more after _ there => .ok _ there) fun _ => id
    · exact other
  | moreComma room position rest ihArg ihMore =>
    rw [read_moreArguments_comma, Counting.read, Counting.moreArguments]
    refine .advance here (fun _ => id) fun there => .bind
      (ihArg (there.mono (Nat.le_succ 1)) trivial) (fun arg after ok there => ?_) fun _ => id
    exact .bind (ihMore arg.value arg.rest ok there trivial)
      (fun more after _ there => .ok _ there) fun _ => id
  | moreOther room tokens other =>
    rw [read_moreArguments_other _ _ _ other, Counting.read, Counting.moreArguments]
    · exact .ok _ here
    · exact other

/-- All tokens are read as they are with the levels counted down. -/
theorem whole_counts (fits : p.limit ≤ largest) {before : Counter}
    (here : p.At start 1 p.limit before) (tokens : List Token) :
    Counts before (Counting.whole p largest tokens) id (p.whole tokens)
      (p.At start 1 p.limit) := by
  cases tokens with
  | nil =>
    rw [Counting.whole, whole]
    cases p.reach [] with
    | error error => exact ⟨_, before, rfl, rfl, here⟩
    | ok _ => exact ⟨_, before, rfl, rfl, here⟩
  | cons token rest =>
    rw [whole_cons, Counting.whole]
    have chain : Counts before (Counting.read p largest (.chain .sum) (token :: rest)) Parsed.out
        (p.read (.chain .sum) p.limit (token :: rest)) (p.At start 1 p.limit) :=
      read_counts fits here trivial
    refine chain.bind (fun all after _ there => ?_) fun _ => id
    exact ⟨_, after, rfl, congrFun Except.map_id _, there⟩

end Parser

/-- A parser that counts with numbers up to the limit or beyond does not overflow and answers what
the parser answers. Wherever it stands, the depth is within the limit and ahead of the tokens by one
at most, and at the end it is zero. And every rule that reads by itself, started anywhere within the
limit, ends with a value or an error at the depth that it started at. -/
theorem Expr.parse_counts (context : Context) {limit largest : Nat} (fits : limit ≤ largest) :
    (∀ text, ∃ after,
      countingParse context limit largest text = some (parse context limit text, after) ∧
      after.depth = 0 ∧
      ∀ tally ∈ after.trail, tally.depth ≤ limit ∧ tally.depth ≤ tally.consumed + 1) ∧
    ∀ (ending : Ending) (rule : Rule) (tokens : List Token) (before : Counter),
      (∀ level left, rule ≠ .links level left) → before.depth ≤ limit →
      let p : Parser := ⟨context, limit, ending⟩
      ∃ x after noted, Counting.read p largest rule tokens before = some (x, after) ∧
        x.map Parsed.out = p.read rule (limit - before.depth) tokens ∧
        after.depth = before.depth ∧ after.trail = noted ++ before.trail ∧
        ∀ tally ∈ noted, tally.depth ≤ limit ∧
          tally.depth + before.consumed ≤ tally.consumed + before.depth + 1 := by
  constructor
  · intro text
    let tokens := Tokens.ofText text
    let p : Parser := ⟨context, limit, tokens.ending⟩
    have start : p.At ⟨⟨0, 0⟩, []⟩ 1 limit ⟨⟨0, 0⟩, []⟩ :=
      .here (Nat.zero_le limit) (Nat.le_refl 1)
    obtain ⟨x, after, ran, same, there⟩ := Parser.whole_counts fits start tokens.list
    have same : x = parse context limit text := (congrFun Except.map_id x).symm.trans same
    obtain ⟨noted, trail, within⟩ := there.within
    rw [List.append_nil] at trail
    refine ⟨after, same ▸ ran, Nat.add_eq_right.1 there.levels, fun tally mem => ?_⟩
    exact within tally (trail ▸ mem)
  · intro ending rule tokens before whole within p
    have start : p.At before rule.gain (limit - before.depth) before :=
      .here within rule.gain_le_one
    obtain ⟨x, after, ran, same, there⟩ := Parser.read_counts fits start (.of_ne_links whole)
    have back := there.of_ne_links whole
    obtain ⟨noted, trail, bounds⟩ := back.within
    refine ⟨x, after, noted, ran, same, ?_, trail, bounds⟩
    exact Nat.add_right_cancel (back.levels.trans start.levels.symm)

/-- A sum with a sign, for which two levels do not suffice, and the sign read at the limit, both
counted with numbers of 64 bits. -/
theorem Expr.parse_counts_of_sum :
    let p : Parser := ⟨Standard.context, 2, .finish 4⟩
    let tokens : List Token := [⟨.operator .subtract, 2⟩, ⟨.number 2, 3⟩]
    let before : Counter := ⟨⟨2, 2⟩, []⟩
    2 ≤ 2 ^ 64 - 1 ∧
    (∃ after,
      countingParse Standard.context 2 (2 ^ 64 - 1) "1+-2" =
        some (parse Standard.context 2 "1+-2", after) ∧
      after.depth = 0 ∧
      ∀ tally ∈ after.trail, tally.depth ≤ 2 ∧ tally.depth ≤ tally.consumed + 1) ∧
    ∃ x after, Counting.read p (2 ^ 64 - 1) .unary tokens before = some (x, after) ∧
      after.depth = 2 := by
  intro p tokens before
  have fits : 2 ≤ 2 ^ 64 - 1 := by decide
  obtain ⟨ofText, ofRule⟩ := parse_counts Standard.context fits
  obtain ⟨x, after, -, ran, -, back, -⟩ :=
    ofRule (.finish 4) .unary tokens before nofun (Nat.le_refl 2)
  exact ⟨fits, ofText "1+-2", x, after, ran, back⟩

/-- Depths and numbers of tokens while the sum is read: the operator raises the depth without a look
at the limit, and the sign finds no level left. -/
example : (Expr.countingParse Standard.context 2 (2 ^ 64 - 1) "1+-2").map
    (fun read => read.2.trail.reverse.map fun tally => (tally.depth, tally.consumed)) =
      some [(1, 0), (1, 1), (0, 1), (0, 1), (0, 2), (1, 2), (2, 2), (2, 3), (1, 3), (1, 3),
        (0, 3)] := by decide +kernel

end ArithExpr
