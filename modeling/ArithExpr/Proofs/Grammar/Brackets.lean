import ArithExpr.Proofs.Grammar.Blame
import ArithExpr.Proofs.Grammar.Composition
import ArithExpr.Proofs.Token.Brackets

/-!
# Parentheses without a partner

What a rule of the grammar takes is balanced (`Derivation.nesting_eq`), so the parser misses a
parenthesis only where none is left for the last one that was opened, or has one too many behind
balanced tokens. Main statement: the unmatched parenthesis that an error points at has no partner
among the tokens of the text, and a text that can be read becomes one with such an error by a
parenthesis too many at its front or at its end (`Expr.parse_unmatched`).
-/

namespace ArithExpr

/-- What a rule takes leaves as many parentheses open as there were. -/
theorem Derivation.nesting_eq {rule : Rule} {value : rule.Value} {tokens rest}
    (d : Derivation rule value tokens rest) (opened : Nat) :
    nesting opened tokens = nesting opened rest := by
  induction d generalizing opened with
  | chain _ _ ihFirst ihLinks => exact (ihFirst opened).trans (ihLinks opened)
  | term _ ih => exact ih opened
  | factor _ ih => exact ih opened
  | done => rfl
  | link _ _ _ ihRight ihMore => exact (ihRight opened).trans (ihMore opened)
  | base _ ih => exact ih opened
  | power _ _ ihLeft ihRight => exact (ihLeft opened).trans (ihRight opened)
  | sign _ _ ih => exact ih opened
  | unsigned _ ih => exact ih opened
  | number => rfl
  | group _ ih => exact ih (opened + 1)
  | named _ ih => exact ih opened
  | call _ ih => exact ih (opened + 1)
  | noArguments => rfl
  | arguments _ _ ihFirst ihMore => exact (ihFirst opened).trans (ihMore opened)
  | lastArgument => rfl
  | nextArgument _ _ ihArg ihMore => exact (ihArg opened).trans (ihMore opened)

namespace Parser
variable {p : Parser} {rule : Rule} {room position : Nat} {tokens rest : List Token}

/-- What is read up to the end of the input is balanced. -/
lemma Reads.balanced {value : rule.Value} (reads : p.Reads rule room value tokens []) :
    Balanced tokens := by
  obtain ⟨d, -⟩ := reads.derived
  exact d.nesting_eq 0

/-- The last parenthesis that is open where the input ends without an error of the lexer. -/
structure Unclosed (p : Parser) (tokens : List Token) (position : Nat) : Prop where
  ended : p.reach [] = .ok ()
  last : LastOpen tokens position

/-- What stands in front of the last open parenthesis does not close it. -/
lemma Unclosed.append (unclosed : p.Unclosed tokens position) (front : List Token) :
    p.Unclosed (front ++ tokens) position :=
  ⟨unclosed.ended, unclosed.last.append front⟩

/-- What is open behind the tokens that a rule takes is so from their start on. -/
lemma Unclosed.behind {value : rule.Value} (unclosed : p.Unclosed rest position)
    (reads : p.Reads rule room value tokens rest) : p.Unclosed tokens position := by
  obtain ⟨taken, rfl, -⟩ := reads.exists_taken
  exact unclosed.append taken

/-- A fault of the parser is none of the lexer. -/
lemma reached_of_fails {α : Type} {next : Unit → Except Error α} {fault : ParseFault}
    (fails : (p.reach tokens >>= next) = .error ⟨.parse fault, position⟩) :
    p.reach tokens = .ok () ∧ next () = .error ⟨.parse fault, position⟩ := by
  obtain fails | ⟨_, reached, fails⟩ := bind_eq_error_iff.1 fails
  · unfold reach at fails
    split at fails <;> cases fails
  · exact ⟨reached, fails⟩

/-- A parenthesis is missing only where the input ends. -/
lemma unclosed_of_close {value : rule.Value} {opened}
    (reads : p.Reads rule room value tokens rest)
    (fails : p.close opened rest = .error ⟨.parse .unmatchedParenthesis, position⟩) :
    p.Unclosed (⟨.openParen, opened⟩ :: tokens) position := by
  cases rest with
  | nil =>
    cases fails
    exact ⟨reads.reached, [], tokens, rfl, reads.balanced⟩
  | cons token tail =>
    obtain ⟨lexeme, place⟩ := token
    by_cases closes : lexeme = .closeParen
    · subst closes
      rw [close_closeParen] at fails
      cases (reached_of_fails fails).2
    · rw [close_other closes] at fails
      cases fails

/-- A rule fails for want of a parenthesis only at the last one that is open where the input
ends. -/
theorem read_unclosed (ready : p.Ready rule tokens) (reached : p.reach tokens = .ok ())
    (fails : p.read rule room tokens = .error ⟨.parse .unmatchedParenthesis, position⟩) :
    p.Unclosed tokens position := by
  -- what a rule has read is balanced, so what fails behind it tells which parenthesis is the last
  induction rule, room, tokens using induct (p := p) with
  | chain level room tokens ihFirst ihLinks =>
    rw [read_chain, bind_eq_error_iff] at fails
    obtain fails | ⟨⟨first, middle⟩, ok, fails⟩ := fails
    · exact ihFirst trivial reached fails
    have reads : p.Reads (.operand level) _ _ _ _ := read_sound trivial reached ok
    exact (ihLinks first middle ok reads.ready reads.reached fails).behind reads
  | term room tokens ih =>
    rw [read_operand_sum] at fails
    exact ih trivial reached fails
  | factor room tokens ih =>
    rw [read_operand_product] at fails
    exact ih trivial reached fails
  | linksNil level left room =>
    rw [read_links_nil] at fails
    cases fails
  | linksNone level left room token tail ends =>
    rw [read_links_none _ _ _ _ ends] at fails
    cases fails
  | linksSome level left room token tail op joins ihRight ihMore =>
    rw [read_links_some _ _ _ _ joins] at fails
    obtain ⟨reachedTail, fails⟩ := reached_of_fails fails
    rw [bind_eq_error_iff] at fails
    obtain fails | ⟨⟨right, middle⟩, ok, fails⟩ := fails
    · exact (ihRight trivial reachedTail fails).append [token]
    have reads : p.Reads (.operand level) _ _ _ _ := read_sound trivial reachedTail ok
    have called : (Expr.binary op left right token.position).WellCalled p.context :=
      .binary ready.1 reads.ready.1
    have unclosed := ihMore right middle ok ⟨called, reads.stops⟩ reads.reached fails
    exact (unclosed.behind reads).append [token]
  | powerZero tokens =>
    rw [read_power_zero] at fails
    cases fails
  | powerSucc room tokens ihBase ihExponent =>
    rw [read_power_succ, bind_eq_error_iff] at fails
    obtain fails | ⟨⟨base, middle⟩, ok, fails⟩ := fails
    · exact ihBase trivial reached fails
    simp only at fails
    unfold exponent at fails
    split at fails
    next place tail =>
      have reads : p.Reads .unary _ _ _ _ := read_sound trivial reached ok
      obtain ⟨reachedTail, fails⟩ := reached_of_fails fails
      obtain fails | ⟨_, _, fails⟩ := bind_eq_error_iff.1 fails
      · have unclosed := ihExponent base place tail ok trivial reachedTail fails
        exact (unclosed.append [⟨.operator .power, place⟩]).behind reads
      · cases fails
    next => cases fails
  | unaryNil room ih =>
    rw [read_unary_nil] at fails
    exact ih trivial reached fails
  | unaryNone room token tail unsigned ih =>
    rw [read_unary_none _ _ _ unsigned] at fails
    exact ih trivial reached fails
  | unarySome room token tail sign signed ih =>
    rw [read_unary_some _ _ _ signed] at fails
    obtain ⟨reachedTail, fails⟩ := reached_of_fails fails
    cases room with
    | zero => cases fails
    | succ room =>
      obtain fails | ⟨_, _, fails⟩ := bind_eq_error_iff.1 fails
      · exact (ih room trivial reachedTail fails).append [token]
      · cases fails
  | primaryNil room =>
    rw [read_primary_nil] at fails
    cases fails
  | primaryNumber room value place tail =>
    rw [read_primary_number] at fails
    cases (reached_of_fails fails).2
  | primaryOpenParen room opened tail ih =>
    rw [read_primary_openParen] at fails
    obtain ⟨reachedTail, fails⟩ := reached_of_fails fails
    simp only [bind_eq_error_iff] at fails
    obtain fails | ⟨⟨tree, behind⟩, ok, fails | ⟨_, _, fails⟩⟩ := fails
    · exact (ih trivial reachedTail fails).append [⟨.openParen, opened⟩]
    · have reads : p.Reads (.chain .sum) _ _ _ _ := read_sound trivial reachedTail ok
      exact unclosed_of_close reads fails
    · cases fails
  | primaryName room name place tail ih =>
    rw [read_primary_name] at fails
    obtain ⟨reachedTail, fails⟩ := reached_of_fails fails
    exact (ih trivial reachedTail fails).append [⟨.name name, place⟩]
  | primaryOperator room op place tail =>
    rw [read_primary_operator] at fails
    cases (reached_of_fails fails).2
  | primaryCloseParen room place tail =>
    rw [read_primary_closeParen] at fails
    cases (reached_of_fails fails).2
  | primaryComma room place tail =>
    rw [read_primary_comma] at fails
    cases (reached_of_fails fails).2
  | callUnknown name place room tokens unknown =>
    rw [read_call_unknown _ _ _ unknown] at fails
    cases fails
  | callOpenParen name place room arity opened tail known ih =>
    rw [read_call_openParen _ _ _ known] at fails
    obtain ⟨reachedTail, fails⟩ := reached_of_fails fails
    simp only [bind_eq_error_iff] at fails
    obtain fails | ⟨⟨args, behind⟩, ok, fails | ⟨_, _, fails⟩⟩ := fails
    · exact (ih trivial reachedTail fails).append [⟨.openParen, opened⟩]
    · have reads : p.Reads .arguments _ _ _ _ := read_sound trivial reachedTail ok
      exact unclosed_of_close reads fails
    · unfold called at fails
      split at fails <;> cases fails
  | callOther name place room arity tokens known other =>
    rw [read_call_other _ _ _ known other] at fails
    cases fails
  | argumentsCloseParen room place tail =>
    rw [read_arguments_closeParen] at fails
    cases fails
  | argumentsOther room tokens other ihFirst ihMore =>
    simp only [read_arguments_other _ _ _ other, bind_eq_error_iff] at fails
    obtain fails | ⟨⟨first, middle⟩, ok, fails | ⟨_, _, fails⟩⟩ := fails
    · exact ihFirst trivial reached fails
    · have reads : p.Reads (.chain .sum) _ _ _ _ := read_sound trivial reached ok
      exact (ihMore first middle ok trivial reads.reached fails).behind reads
    · cases fails
  | moreComma room place tail ihArg ihMore =>
    rw [read_moreArguments_comma] at fails
    obtain ⟨reachedTail, fails⟩ := reached_of_fails fails
    simp only [bind_eq_error_iff] at fails
    obtain fails | ⟨⟨arg, middle⟩, ok, fails | ⟨_, _, fails⟩⟩ := fails
    · exact (ihArg trivial reachedTail fails).append [⟨.comma, place⟩]
    · have reads : p.Reads (.chain .sum) _ _ _ _ := read_sound trivial reachedTail ok
      have unclosed := ihMore arg middle ok trivial reads.reached fails
      exact (unclosed.behind reads).append [⟨.comma, place⟩]
    · cases fails
  | moreOther room tokens other =>
    rw [read_moreArguments_other _ _ _ other] at fails
    cases fails

/-- Tokens are refused for want of a partner at a closing parenthesis behind an expression, or at
the last one that is not closed. -/
lemma whole_unmatched (fails : p.whole tokens = .error ⟨.parse .unmatchedParenthesis, position⟩) :
    ClosesNothing tokens position ∨ p.Unclosed tokens position := by
  cases tokens with
  | nil =>
    rw [whole] at fails
    cases (reached_of_fails fails).2
  | cons token tail =>
    rw [whole_cons, bind_eq_error_iff] at fails
    obtain fails | ⟨⟨tree, behind⟩, ok, fails⟩ := fails
    · have ready : p.Ready (.chain .sum) (token :: tail) := trivial
      exact .inr (read_unclosed ready rfl fails)
    have reads : p.Reads (.chain .sum) _ _ _ _ := read_sound trivial rfl ok
    obtain ⟨taken, whole, read⟩ := reads.exists_taken
    simp only at fails
    unfold ended at fails
    split at fails
    next => cases fails
    next place after =>
      cases fails
      obtain ⟨d⟩ := read.derived []
      rw [List.append_nil] at d
      exact .inl ⟨taken, after, whole, d.nesting_eq 0⟩
    next => cases fails

/-- What starts a group fails where an expression does in its place, with a level more. -/
lemma read_of_primary_fails {token : Token} {error} (unsigned : token.value.sign? = none)
    (fails : p.read .primary room (token :: rest) = .error error) :
    p.read (.chain .sum) (room + 1) (token :: rest) = .error error := by
  rw [read_chain, read_operand_sum, read_chain, read_operand_product, read_power_succ,
    read_unary_none _ _ _ unsigned, fails]
  rfl

end Parser

namespace Expr
variable {context : Context} {limit : Nat} {text : String} {tree : Expr}

/-- A parenthesis in front of what can be read is not closed. -/
lemma parse_openParen (ok : parse context limit text = .ok tree) :
    parse context (limit + 1) ("(" ++ text) = .error ⟨.parse .unmatchedParenthesis, 0⟩ := by
  have layout := (Tokens.layout_ofText text).shift 1
  have tokens : Tokens.ofText ("(" ++ text) =
      ⟨⟨.openParen, 0⟩ :: ((Tokens.ofText text).relocate (· + 1)).list,
        ((Tokens.ofText text).relocate (· + 1)).ending⟩ := by
    rw [← layout.tokens_eq]
    simpa [Tokens.ofText, Cursor.start] using Cursor.tokens_symbol (c := '(') rfl
  obtain ⟨stop, finish⟩ := (DerivedFrom.of_parse ok).exists_finish
  have finish' : ((Tokens.ofText text).relocate (· + 1)).ending = .finish (stop + 1) :=
    congrArg (Ending.relocate (· + 1)) finish
  obtain ⟨⟨d, cost⟩, called⟩ := derived_shift_of_parse ok 1
  -- the group is read up to the end of the text, where nothing closes it
  have unclosed : Parser.read ⟨context, limit + 1, .finish (stop + 1)⟩ .primary limit
      (⟨.openParen, 0⟩ :: ((Tokens.ofText text).relocate (· + 1)).list) =
        .error ⟨.parse .unmatchedParenthesis, 0⟩ := by
    rw [Parser.read_primary_openParen, Parser.reach_of_finish rfl, ok_bind,
      Parser.read_complete rfl d cost (List.forall_mem_singleton.2 called) trivial trivial]
    rfl
  rw [parse, tokens, finish', Parser.whole_cons, Parser.read_of_primary_fails rfl unclosed]
  rfl

/-- A parenthesis behind what can be read is one too many. -/
lemma parse_closeParen (ok : parse context limit text = .ok tree) :
    parse context limit (text ++ ")") = .error ⟨.parse .unmatchedParenthesis, text.length⟩ := by
  obtain ⟨derived, ending, called⟩ := reads_of_parse ok 0 (c := ')') rfl []
  have tokens : Tokens.ofText (text ++ ")") = Cursor.tokens ⟨text.toList ++ [')'], 0⟩ := by
    simp [Tokens.ofText, Cursor.start]
  have behind : Cursor.tokens ⟨[')'], 0 + text.length⟩ =
      ⟨[⟨.closeParen, 0 + text.length⟩], .finish (0 + text.length + 1)⟩ := by
    rw [Cursor.tokens_symbol (c := ')') rfl, Cursor.tokens_of_end rfl]
    rfl
  rw [behind] at derived ending
  obtain ⟨d, cost⟩ := derived
  rw [parse, tokens, Parser.whole_eq_ended ending d cost (called _ List.mem_cons_self)
    (Rule.stops_closeParen _ _ _), Nat.zero_add]
  rfl

/-- An unmatched parenthesis has no partner among the tokens of the text: it closes nothing, or it
is the last one that is not closed, and then the lexer goes through the whole text. A parenthesis in
front of what can be read, which takes a level, or behind it is unmatched. -/
theorem parse_unmatched (context : Context) (limit : Nat) :
    (∀ text position,
      parse context limit text = .error ⟨.parse .unmatchedParenthesis, position⟩ →
      Unpaired (Tokens.ofText text).list position ∧
      (ClosesNothing (Tokens.ofText text).list position ∨
        LastOpen (Tokens.ofText text).list position ∧
        (Tokens.ofText text).ending = .finish text.length ∧
        ∀ later, position < later → ⟨.openParen, later⟩ ∈ (Tokens.ofText text).list →
          ∃ closed, Partners (Tokens.ofText text).list later closed)) ∧
    ∀ text tree, parse context limit text = .ok tree →
      parse context (limit + 1) ("(" ++ text) = .error ⟨.parse .unmatchedParenthesis, 0⟩ ∧
      parse context limit (text ++ ")") = .error ⟨.parse .unmatchedParenthesis, text.length⟩ := by
  refine ⟨fun text position fails => ?_,
    fun text tree ok => ⟨parse_openParen ok, parse_closeParen ok⟩⟩
  have layout := Tokens.layout_ofText text
  have places := layout.pairwise_places
  rw [Tokens.places, List.pairwise_append] at places
  obtain ⟨increasing, -, -⟩ := places
  have distinct : ((Tokens.ofText text).list.map Located.position).Nodup :=
    increasing.imp Nat.ne_of_lt
  obtain closes | ⟨reached, last⟩ := Parser.whole_unmatched fails
  · exact ⟨closes.unpaired distinct, .inl closes⟩
  · have finish := Parser.finish_of_reach reached
    rw [layout.position_of_finish finish, Nat.zero_add, String.length_toList] at finish
    exact ⟨last.unpaired distinct, .inr ⟨last, finish, fun later behind mem =>
      last.exists_partners increasing behind mem⟩⟩

/-- A parenthesis that is not closed in front of one that is, and a product with one in front of it
or behind it. -/
theorem parse_unmatched_of_product :
    Unpaired (Tokens.ofText "1+(2*(3)").list 2 ∧
      parse Standard.context 6 "(2*(3)" = .error ⟨.parse .unmatchedParenthesis, 0⟩ ∧
      parse Standard.context 5 "2*(3))" = .error ⟨.parse .unmatchedParenthesis, 5⟩ := by
  have fails : (parse Standard.context 5 "1+(2*(3)" >>= fun _ => Except.ok ()) =
      .error ⟨.parse .unmatchedParenthesis, 2⟩ := by decide +kernel
  replace fails := (bind_eq_error_iff.1 fails).resolve_right nofun
  obtain ⟨tree, ok⟩ : ∃ tree, parse Standard.context 5 "2*(3)" = .ok tree :=
    exists_of_isOk (by decide +kernel)
  obtain ⟨unmatched, more⟩ := parse_unmatched Standard.context 5
  obtain ⟨unpaired, -⟩ := unmatched "1+(2*(3)" 2 fails
  exact ⟨unpaired, more "2*(3)" tree ok⟩

end Expr
end ArithExpr
