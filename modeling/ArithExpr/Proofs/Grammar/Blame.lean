import ArithExpr.Proofs.Grammar.Levels
import ArithExpr.Proofs.Grammar.Viability
import ArithExpr.Proofs.Token.Layout

/-!
# What the errors of the parser say

An error of the parser is about the first token with which the tokens before it can no longer become
an expression, or about the end of a text whose tokens could still become one, or about a call
(`ParseFault.Tells`). Main statements: whatever rule of the parser fails, its error says so
(`Parser.read_accounts`), and so do all errors of a text (`Expr.parse_tells`).
-/

namespace ArithExpr

/-- The tokens before a token are viable, and together with it they are not. -/
def Offends (context : Context) (tokens before : List Token) (token : Token) : Prop :=
  (∃ after, tokens = before ++ token :: after) ∧ Viable context before ∧
    ¬ Viable context (before ++ [token])

/-- A text ends although its tokens, which are viable, are no sentence yet. -/
def Unfinished (context : Context) (tokens : Tokens) (stop : Nat) : Prop :=
  tokens.ending = .finish stop ∧ Viable context tokens.list ∧ ¬ Sentence tokens.list

/-- What a fault at a position says about the tokens of a text. -/
def ParseFault.Tells (context : Context) (tokens : Tokens) (position : Nat) : ParseFault → Prop
  | .emptyExpression => tokens = ⟨[], .finish position⟩
  | .unexpectedToken text =>
    ∃ before lexeme, lexeme.text = text ∧ Offends context tokens.list before ⟨lexeme, position⟩
  | .trailingInput text =>
    ∃ before lexeme, lexeme.text = text ∧ Sentence before ∧
      Offends context tokens.list before ⟨lexeme, position⟩
  | .unmatchedParenthesis =>
    (∃ before, Sentence before ∧ Offends context tokens.list before ⟨.closeParen, position⟩) ∨
      ⟨.openParen, position⟩ ∈ tokens.list ∧ ∃ stop, Unfinished context tokens stop
  | .missingCallParenthesis name =>
    ∃ front place, let before := front ++ [⟨.name name, place⟩]
      (∃ lexeme, Offends context tokens.list before ⟨lexeme, position⟩) ∨
        tokens.list = before ∧ Unfinished context tokens position
  | .unexpectedEndOfInput => Unfinished context tokens position
  | .unknownFunction name =>
    context.contains name = false ∧
      ∃ before after, tokens.list = before ++ ⟨.name name, position⟩ :: after ∧
        Viable context before
  | .wrongArity name expected found =>
    context.arity? name = some expected ∧ expected ≠ found ∧
      ∃ before call after args,
        tokens.list = before ++ ⟨.name name, position⟩ :: (call ++ after) ∧
        Nonempty (Derivation (.call name position) (.call name args position) call []) ∧
        args.length = found
  | .nestingTooDeep _ => True

namespace Stuck
variable {context : Context} {before : List Token}

/-- Where the parser is stuck the token ahead offends. -/
lemma offends {token rest} (stuck : Stuck context before (token :: rest)) :
    Offends context (before ++ token :: rest) before token := by
  refine ⟨⟨rest, rfl⟩, stuck.viable, fun ⟨more, sentence, _⟩ => ?_⟩
  rw [List.append_assoc] at sentence
  exact stuck.ends (token :: more) rfl sentence

/-- Where the parser is stuck at the end of a text the text is unfinished. -/
lemma unfinished {ending stop} (stuck : Stuck context before []) (finish : ending = .finish stop) :
    Unfinished context ⟨before ++ [], ending⟩ stop :=
  ⟨finish, (List.append_nil before).symm ▸ stuck.viable, stuck.ends [] rfl⟩

end Stuck

namespace Parser
variable {p : Parser} {rule : Rule} {room : Nat} {tokens before rest : List Token} {error : Error}

/-- What an error of the parser says: it is the one of the lexer, or says something about the
tokens. -/
def Accounts (p : Parser) (tokens : List Token) (error : Error) : Prop :=
  match error.value with
  | .lex fault => p.ending = .fault ⟨fault, error.position⟩
  | .parse fault => fault.Tells p.context ⟨tokens, p.ending⟩ error.position
  | .eval _ => False

/-- An error of the lexer is its own account. -/
lemma reach_accounts (fails : p.reach rest = .error error) (tokens : List Token) :
    p.Accounts tokens error := by
  unfold reach at fails
  split at fails
  next fault =>
    cases fails
    exact fault
  next => cases fails

/-- Where no token is left and there is no error of the lexer the text has ended. -/
lemma finish_of_reach (reached : p.reach [] = .ok ()) : p.ending = .finish p.ending.position := by
  unfold reach at reached
  cases ending : p.ending with
  | finish stop => rfl
  | fault error => simp [ending] at reached

/-- A word that starts no operand is the first one that offends. -/
lemma unexpected_accounts {lexeme position}
    (awaits : Awaits p.context .primary before (⟨lexeme, position⟩ :: rest))
    (none : ∀ tree more behind,
      IsEmpty (Derivation .primary tree (⟨lexeme, position⟩ :: more) behind))
    (fails : (p.reach rest >>= fun _ => fail (.unexpectedToken lexeme.text) position) =
      (.error error : Except Error (Expr × List Token))) :
    p.Accounts (before ++ ⟨lexeme, position⟩ :: rest) error := by
  rw [bind_eq_error_iff] at fails
  obtain fails | ⟨_, -, fails⟩ := fails
  · exact reach_accounts fails _
  cases fails
  refine ⟨before, lexeme, rfl, (awaits.stuck fun tree more behind same _ => ?_).offends⟩
  obtain ⟨tail, rfl⟩ := List.head?_eq_some_iff.1 same
  exact none tree tail behind

/-- What stands where a parenthesis should close is unexpected. -/
lemma close_other {lexeme} (other : lexeme ≠ .closeParen) (opened position : Nat) :
    p.close opened (⟨lexeme, position⟩ :: rest) = fail (.unexpectedToken lexeme.text) position := by
  rw [close, closing]
  · rfl
  · rintro _ same
    cases same
    exact other rfl

/-- A parenthesis that is missing where the parser is stuck without it. -/
lemma close_accounts {opened}
    (stuck : (∀ position tail, rest ≠ ⟨.closeParen, position⟩ :: tail) →
      Stuck p.context before rest)
    (mem : ⟨.openParen, opened⟩ ∈ before) (reached : p.reach rest = .ok ())
    (fails : p.close opened rest = .error error) : p.Accounts (before ++ rest) error := by
  cases rest with
  | nil =>
    cases fails
    exact .inr ⟨List.mem_append_left _ mem, _, (stuck nofun).unfinished (finish_of_reach reached)⟩
  | cons token tail =>
    obtain ⟨lexeme, position⟩ := token
    by_cases closes : lexeme = .closeParen
    · subst closes
      rw [close_closeParen, bind_eq_error_iff] at fails
      obtain fails | ⟨_, -, fails⟩ := fails
      · exact reach_accounts fails _
      · cases fails
    · rw [close_other closes] at fails
      cases fails
      refine ⟨before, lexeme, rfl, (stuck fun _ _ same => ?_).offends⟩
      cases same
      exact closes rfl

/-- Arguments that were read up to what neither closes the call nor goes on with a comma. -/
lemma stuck_of_arguments (rule : Rule) {value : rule.Value}
    (closing : ∀ rest, rule.Closes rest → ∃ position tail, rest = ⟨.closeParen, position⟩ :: tail)
    (reached : p.reach tokens = .ok ()) (awaits : Awaits p.context rule before tokens)
    (ok : p.read rule room tokens = .ok (value, rest))
    (other : ∀ position tail, rest ≠ ⟨.closeParen, position⟩ :: tail) :
    ∃ taken, tokens = taken ++ rest ∧ Stuck p.context (before ++ taken) rest := by
  induction rule, room, tokens using induct (p := p) generalizing before rest with
  | argumentsCloseParen room position tail =>
    rw [read_arguments_closeParen] at ok
    cases ok
    exact absurd rfl (other position tail)
  | argumentsOther room tokens open_ _ ihMore =>
    simp only [read_arguments_other _ _ _ open_, bind_eq_ok_iff] at ok
    obtain ⟨⟨first, middle⟩, okFirst, ⟨more, behind⟩, okMore, eq⟩ := ok
    cases eq
    have reads : p.Reads (.chain .sum) _ _ _ _ := read_sound trivial reached okFirst
    obtain ⟨taken, rfl, read⟩ := reads.exists_taken
    obtain ⟨others, rfl, stuck⟩ := ihMore first middle okFirst (fun _ => id) reads.reached
      (awaits.rest read reads.stops) okMore other
    exact ⟨taken ++ others, (List.append_assoc _ _ _).symm, by rwa [← List.append_assoc]⟩
  | moreComma room position tail _ ihMore =>
    simp only [read_moreArguments_comma, bind_eq_ok_iff] at ok
    obtain ⟨_, reachedTail, ⟨arg, middle⟩, okArg, ⟨more, behind⟩, okMore, eq⟩ := ok
    cases eq
    have reads : p.Reads (.chain .sum) _ _ _ _ := read_sound trivial reachedTail okArg
    obtain ⟨taken, rfl, read⟩ := reads.exists_taken
    obtain ⟨others, rfl, stuck⟩ := ihMore arg middle okArg (fun _ => id) reads.reached
      (awaits.others read reads.stops) okMore other
    refine ⟨⟨.comma, position⟩ :: taken ++ others, by simp, ?_⟩
    rwa [← List.append_assoc]
  | moreOther room tokens noComma =>
    rw [read_moreArguments_other _ _ _ noComma] at ok
    cases ok
    refine ⟨[], rfl, ?_⟩
    rw [List.append_nil]
    refine awaits.stuck fun value more behind same closes => ⟨fun d => ?_⟩
    cases d with
    | lastArgument =>
      obtain ⟨position, tail, rfl⟩ := closes
      obtain ⟨tail', rfl⟩ := List.head?_eq_some_iff.1 same.symm
      exact other position tail' rfl
    | nextArgument _ _ =>
      obtain ⟨tail', rfl⟩ := List.head?_eq_some_iff.1 same.symm
      exact noComma _ tail' rfl
  | _ =>
    obtain ⟨position, tail, same⟩ := closing [] trivial
    cases same

/-- An error of a rule says what the tokens before and ahead are. -/
theorem read_accounts (ready : p.Ready rule tokens) (reached : p.reach tokens = .ok ())
    (awaits : Awaits p.context rule before tokens)
    (fails : p.read rule room tokens = .error error) : p.Accounts (before ++ tokens) error := by
  induction rule, room, tokens using induct (p := p) generalizing before with
  | chain level room tokens ihFirst ihLinks =>
    rw [read_chain, bind_eq_error_iff] at fails
    obtain fails | ⟨⟨first, middle⟩, ok, fails⟩ := fails
    · exact ihFirst trivial reached awaits.operand fails
    have reads : p.Reads (.operand level) _ _ _ _ := read_sound trivial reached ok
    obtain ⟨taken, rfl, read⟩ := reads.exists_taken
    rw [← List.append_assoc]
    exact ihLinks first middle ok reads.ready reads.reached (awaits.links read reads.stops) fails
  | term room tokens ih =>
    rw [read_operand_sum] at fails
    exact ih trivial reached awaits.term fails
  | factor room tokens ih =>
    rw [read_operand_product] at fails
    exact ih trivial reached awaits.factor fails
  | linksNil level left room =>
    rw [read_links_nil] at fails
    cases fails
  | linksNone level left room token tail ends =>
    rw [read_links_none _ _ _ _ ends] at fails
    cases fails
  | linksSome level left room token tail op joins ihRight ihMore =>
    simp only [read_links_some _ _ _ _ joins, bind_eq_error_iff] at fails
    obtain fails | ⟨_, reachedTail, fails | ⟨⟨right, middle⟩, ok, fails⟩⟩ := fails
    · exact reach_accounts fails _
    · rw [List.append_cons]
      exact ihRight trivial reachedTail (awaits.right joins) fails
    have reads : p.Reads (.operand level) _ _ _ _ := read_sound trivial reachedTail ok
    obtain ⟨taken, rfl, read⟩ := reads.exists_taken
    have called : (Expr.binary op left right token.position).WellCalled p.context :=
      .binary ready.1 reads.ready.1
    rw [← List.cons_append, ← List.append_assoc]
    exact ihMore right middle ok ⟨called, reads.stops⟩ reads.reached
      (awaits.link joins read reads.stops) fails
  | powerZero tokens =>
    rw [read_power_zero] at fails
    cases fails
    trivial
  | powerSucc room tokens ihBase ihExponent =>
    rw [read_power_succ, bind_eq_error_iff] at fails
    obtain fails | ⟨⟨base, middle⟩, ok, fails⟩ := fails
    · exact ihBase trivial reached awaits.base fails
    simp only at fails
    unfold exponent at fails
    split at fails
    next position tail =>
      have reads : p.Reads .unary _ _ _ _ := read_sound trivial reached ok
      obtain ⟨taken, rfl, read⟩ := reads.exists_taken
      simp only [bind_eq_error_iff] at fails
      obtain fails | ⟨_, reachedTail, fails | ⟨_, _, fails⟩⟩ := fails
      · exact reach_accounts fails _
      · rw [List.append_cons taken, ← List.append_assoc]
        exact ihExponent base position tail ok trivial reachedTail (awaits.exponent read) fails
      · cases fails
    next => cases fails
  | unaryNil room ih =>
    rw [read_unary_nil] at fails
    exact ih trivial reached (awaits.unsigned nofun) fails
  | unaryNone room token tail unsigned ih =>
    rw [read_unary_none _ _ _ unsigned] at fails
    refine ih trivial reached (awaits.unsigned fun first same => ?_) fails
    cases same
    exact unsigned
  | unarySome room token tail sign signed ih =>
    rw [read_unary_some _ _ _ signed, bind_eq_error_iff] at fails
    obtain fails | ⟨_, reachedTail, fails⟩ := fails
    · exact reach_accounts fails _
    cases room with
    | zero =>
      cases fails
      trivial
    | succ room =>
      rw [bind_eq_error_iff] at fails
      obtain fails | ⟨_, _, fails⟩ := fails
      · rw [List.append_cons]
        exact ih room trivial reachedTail (awaits.signed signed) fails
      · cases fails
  | primaryNil room =>
    rw [read_primary_nil] at fails
    cases fails
    refine (awaits.stuck fun tree more behind same _ => ⟨fun d => ?_⟩).unfinished
      (finish_of_reach reached)
    cases List.head?_eq_none_iff.1 same
    cases d
  | primaryNumber room value position tail =>
    rw [read_primary_number, bind_eq_error_iff] at fails
    obtain fails | ⟨_, _, fails⟩ := fails
    · exact reach_accounts fails _
    · cases fails
  | primaryOpenParen room opened tail ih =>
    simp only [read_primary_openParen, bind_eq_error_iff] at fails
    obtain fails | ⟨_, reachedTail, fails | ⟨⟨tree, behind⟩, ok, fails | ⟨_, _, fails⟩⟩⟩ := fails
    · exact reach_accounts fails _
    · rw [List.append_cons]
      exact ih trivial reachedTail awaits.group fails
    · have reads : p.Reads (.chain .sum) _ _ _ _ := read_sound trivial reachedTail ok
      obtain ⟨taken, rfl, read⟩ := reads.exists_taken
      rw [← List.cons_append, ← List.append_assoc]
      exact close_accounts (awaits.stuck_of_group read reads.stops)
        (List.mem_append_right _ List.mem_cons_self) reads.reached fails
    · cases fails
  | primaryName room name position tail ih =>
    rw [read_primary_name, bind_eq_error_iff] at fails
    obtain fails | ⟨_, reachedTail, fails⟩ := fails
    · exact reach_accounts fails _
    cases known : p.context.arity? name with
    | none =>
      rw [read_call_unknown _ _ _ known] at fails
      cases fails
      refine ⟨?_, before, tail, rfl, awaits.viable⟩
      rw [Context.contains, Option.map_eq_none_iff.1 known, Option.isSome_none]
    | some arity =>
      rw [List.append_cons]
      refine ih trivial reachedTail (awaits.named ?_) fails
      obtain ⟨builtin, found, -⟩ := Option.map_eq_some_iff.1 known
      rw [Context.contains, found, Option.isSome_some]
  | primaryOperator room op position tail =>
    rw [read_primary_operator] at fails
    exact unexpected_accounts awaits (fun _ _ _ => ⟨fun d => by cases d⟩) fails
  | primaryCloseParen room position tail =>
    rw [read_primary_closeParen] at fails
    exact unexpected_accounts awaits (fun _ _ _ => ⟨fun d => by cases d⟩) fails
  | primaryComma room position tail =>
    rw [read_primary_comma] at fails
    exact unexpected_accounts awaits (fun _ _ _ => ⟨fun d => by cases d⟩) fails
  | callUnknown name position room tokens unknown =>
    have known := awaits.opened.1
    rw [Context.contains, Option.map_eq_none_iff.1 unknown] at known
    cases known
  | callOpenParen name position room arity opened tail known ih =>
    simp only [read_call_openParen _ _ _ known, bind_eq_error_iff] at fails
    obtain fails | ⟨_, reachedTail, fails | ⟨⟨args, behind⟩, ok, fails | ⟨rest, closed, fails⟩⟩⟩ :=
      fails
    · exact reach_accounts fails _
    · rw [List.append_cons]
      exact ih trivial reachedTail awaits.call fails
    · have reads : p.Reads .arguments _ _ _ _ := read_sound trivial reachedTail ok
      obtain ⟨taken, rfl, -⟩ := reads.exists_taken
      rw [List.append_cons, ← List.append_assoc]
      refine close_accounts (fun other => ?_)
        (List.mem_append_left _ (List.mem_append_right _ List.mem_cons_self)) reads.reached fails
      obtain ⟨_, same, stuck⟩ :=
        stuck_of_arguments .arguments (fun _ => id) reachedTail awaits.call ok other
      rwa [List.append_cancel_right same]
    · obtain ⟨place, rfl, reached⟩ := close_eq_ok closed
      have reads : p.Reads .arguments _ _ _ _ := read_sound trivial reachedTail ok
      obtain ⟨taken, rfl, read⟩ := reads.exists_taken
      obtain ⟨-, front, rfl⟩ := awaits.opened
      unfold called at fails
      split at fails
      next => cases fails
      next many =>
        cases fails
        refine ⟨known, Ne.symm many, front,
          ⟨.openParen, opened⟩ :: (taken ++ [⟨.closeParen, place⟩]), rest, args, by simp, ?_, rfl⟩
        exact (read.derived [⟨.closeParen, place⟩]).map .call
  | callOther name position room arity tokens known other =>
    rw [read_call_other _ _ _ known other] at fails
    cases fails
    have stuck : Stuck p.context before tokens := by
      refine awaits.stuck fun tree more behind same _ => ⟨fun d => ?_⟩
      cases d with
      | call _ =>
        obtain ⟨tail, rfl⟩ := List.head?_eq_some_iff.1 same.symm
        exact other _ tail rfl
    obtain ⟨-, front, rfl⟩ := awaits.opened
    refine ⟨front, position, ?_⟩
    cases tokens with
    | nil =>
      exact .inr ⟨List.append_nil _, stuck.unfinished (finish_of_reach reached)⟩
    | cons token tail => exact .inl ⟨token.value, stuck.offends⟩
  | argumentsCloseParen room position tail =>
    rw [read_arguments_closeParen] at fails
    cases fails
  | argumentsOther room tokens other ihFirst ihMore =>
    simp only [read_arguments_other _ _ _ other, bind_eq_error_iff] at fails
    obtain fails | ⟨⟨first, middle⟩, ok, fails | ⟨_, _, fails⟩⟩ := fails
    · exact ihFirst trivial reached (awaits.first other) fails
    · have reads : p.Reads (.chain .sum) _ _ _ _ := read_sound trivial reached ok
      obtain ⟨taken, rfl, read⟩ := reads.exists_taken
      rw [← List.append_assoc]
      exact ihMore first middle ok trivial reads.reached (awaits.rest read reads.stops) fails
    · cases fails
  | moreComma room position tail ihArg ihMore =>
    simp only [read_moreArguments_comma, bind_eq_error_iff] at fails
    obtain fails | ⟨_, reachedTail, fails | ⟨⟨arg, middle⟩, ok, fails | ⟨_, _, fails⟩⟩⟩ := fails
    · exact reach_accounts fails _
    · rw [List.append_cons]
      exact ihArg trivial reachedTail awaits.next fails
    · have reads : p.Reads (.chain .sum) _ _ _ _ := read_sound trivial reachedTail ok
      obtain ⟨taken, rfl, read⟩ := reads.exists_taken
      rw [← List.cons_append, ← List.append_assoc]
      exact ihMore arg middle ok trivial reads.reached (awaits.others read reads.stops) fails
    · cases fails
  | moreOther room tokens other =>
    rw [read_moreArguments_other _ _ _ other] at fails
    cases fails

/-- An error of a text says what its tokens are. -/
theorem whole_accounts (fails : p.whole tokens = .error error) : p.Accounts tokens error := by
  cases tokens with
  | nil =>
    rw [whole, bind_eq_error_iff] at fails
    obtain fails | ⟨_, reached, fails⟩ := fails
    · exact reach_accounts fails _
    · cases fails
      exact congrArg _ (finish_of_reach reached)
  | cons token tail =>
    rw [whole_cons, bind_eq_error_iff] at fails
    obtain fails | ⟨⟨tree, behind⟩, ok, fails⟩ := fails
    · have ready : p.Ready (.chain .sum) (token :: tail) := trivial
      exact read_accounts ready rfl (.start _ _) fails
    have reads : p.Reads (.chain .sum) _ _ _ _ := read_sound trivial rfl ok
    obtain ⟨taken, whole, read⟩ := reads.exists_taken
    rw [whole]
    have sentence : Sentence taken := by
      have d := read.derived []
      rw [List.append_nil] at d
      exact ⟨tree, d⟩
    -- no sentence goes on from here with the token behind what was read
    have stuck (nonempty : behind ≠ []) : Stuck p.context taken behind := by
      refine ⟨⟨[], ?_⟩, ?_⟩
      · rw [List.append_nil]
        exact ⟨sentence, read.knows⟩
      · rintro more same ⟨tree', ⟨d⟩⟩
        obtain ⟨-, rfl⟩ := read.unique reads.stops same d trivial fun _ => trivial
        exact nonempty (List.head?_eq_none_iff.1 same.symm)
    cases behind with
    | nil => cases fails
    | cons token tail =>
      obtain ⟨lexeme, position⟩ := token
      have offends := (stuck (List.cons_ne_nil _ _)).offends
      cases lexeme with
      | closeParen =>
        cases fails
        exact .inl ⟨taken, sentence, offends⟩
      | _ =>
        cases fails
        exact ⟨taken, _, rfl, sentence, offends⟩

end Parser

namespace Expr

/-- An error of a text says what its tokens are. -/
lemma accounts_of_parse {context limit text error}
    (fails : parse context limit text = .error error) :
    Parser.Accounts ⟨context, limit, (Tokens.ofText text).ending⟩ (Tokens.ofText text).list error :=
  Parser.whole_accounts fails

/-- What a fault of the parser says about the tokens of a text is so. Every place that it can be at
is the place of one token, or of the end behind all of them; and with more levels than the text has
characters the fault is never that there are too few. -/
theorem parse_tells (context : Context) (limit : Nat) (text : String) :
    (Tokens.ofText text).places.Pairwise (· < ·) ∧
    ∀ fault position, parse context limit text = .error ⟨.parse fault, position⟩ →
      fault.Tells context (Tokens.ofText text) position ∧
      (text.length < limit → ∀ levels, fault ≠ .nestingTooDeep levels) := by
  refine ⟨(Tokens.ofText_eq_iff.1 rfl).pairwise_places, fun fault position fails => ?_⟩
  refine ⟨accounts_of_parse fails, fun room levels same => ?_⟩
  subst same
  exact parse_enough context room levels ⟨position, fails⟩

end Expr
end ArithExpr
