import ArithExpr.Expr.Parser.Rules
import ArithExpr.Proofs.Grammar.Basic
import ArithExpr.Proofs.Outcome

/-!
# What the parser reads, rule by rule

`Parser.read` is the function of the parser for a rule, without the proofs that the tokens get
fewer. One equation for each branch of the parser says what it does, and `Parser.induct` is the
induction on the recursion of the parser, with one motive for all rules.
-/

namespace ArithExpr

/-- The value that was read and the tokens ahead now. -/
def Parsed.out {α count} (parsed : Parsed α count) : α × List Token :=
  (parsed.value, parsed.rest)

namespace Parser

/-- Reads a rule off the front of the tokens, with the given number of levels left. -/
def read (p : Parser) : (rule : Rule) → Nat → List Token →
    Except Error (rule.Value × List Token)
  | .chain level, room, tokens => (p.chain level room tokens).map Parsed.out
  | .operand level, room, tokens => (p.operand level room tokens).map Parsed.out
  | .links level left, room, tokens => (p.links level room left tokens).map Parsed.out
  | .power, room, tokens => (p.power room tokens).map Parsed.out
  | .unary, room, tokens => (p.unary room tokens).map Parsed.out
  | .primary, room, tokens => (p.primary room tokens).map Parsed.out
  | .call name position, room, tokens => (p.call name position room tokens).map Parsed.out
  | .arguments, room, tokens => (p.arguments room tokens).map Parsed.out
  | .moreArguments, room, tokens => (p.moreArguments room tokens).map Parsed.out

variable (p : Parser) (level : Level) (room : Nat) (tokens rest : List Token)

/-- A run is read as its first operand and what follows that. -/
lemma read_chain :
    p.read (.chain level) room tokens =
      (p.read (.operand level) room tokens >>= fun first =>
        p.read (.links level first.1) room first.2) := by
  simp only [read, chain, map_eq_bind, bind_assoc, ok_bind, Parsed.out]

/-- An operand of a sum is read as a product. -/
lemma read_operand_sum :
    p.read (.operand .sum) room tokens = p.read (.chain .product) room tokens := by
  simp only [read, operand]

/-- An operand of a product is read as a power. -/
lemma read_operand_product :
    p.read (.operand .product) room tokens = p.read .power room tokens := by
  simp only [read, operand]

/-- A run is over at the end of the tokens. -/
lemma read_links_nil (left : Expr) : p.read (.links level left) room [] = .ok (left, []) := by
  simp only [read, links]
  rfl

/-- A run is over in front of a token that is none of its operators. -/
lemma read_links_none {left : Expr} {token : Token} (ends : level.operator? token.value = none) :
    p.read (.links level left) room (token :: rest) = .ok (left, token :: rest) := by
  simp only [read, links]
  split
  · rfl
  next joins => cases ends.symm.trans joins

/-- An operator of a run is followed by an operand and by the rest of the run, one level deeper. -/
lemma read_links_some {left : Expr} {token : Token} {op}
    (joins : level.operator? token.value = some op) :
    p.read (.links level left) room (token :: rest) =
      (p.reach rest >>= fun _ => p.read (.operand level) (room - 1) rest >>= fun right =>
        p.read (.links level (.binary op left right.1 token.position)) (room - 1) right.2) := by
  simp only [read, links]
  split
  next ends => cases joins.symm.trans ends
  next found =>
    cases joins.symm.trans found
    simp only [map_eq_bind, bind_assoc, ok_bind, Parsed.out]

/-- Without a level left there is no power. -/
lemma read_power_zero : p.read .power 0 tokens = p.tooDeep tokens := by
  simp only [read, power]
  rfl

/-- Reads what stands behind the base of a power. -/
def exponent (base : Expr) (room : Nat) : List Token → Except Error (Expr × List Token)
  | ⟨.operator .power, position⟩ :: rest =>
    p.reach rest >>= fun _ => p.read .power room rest >>= fun right =>
      .ok (.binary .power base right.1 position, right.2)
  | rest => .ok (base, rest)

/-- A power is read as its base and as what may go on with that, one level deeper. -/
lemma read_power_succ :
    p.read .power (room + 1) tokens =
      (p.read .unary room tokens >>= fun base => p.exponent base.1 room base.2) := by
  simp only [read, power, map_eq_bind, bind_assoc]
  cases p.unary room tokens with
  | error error => rfl
  | ok base =>
    obtain ⟨base, rest, shorter⟩ := base
    simp only [ok_bind, Parsed.out]
    split
    next position rest =>
      simp only [exponent, read, map_eq_bind, bind_assoc, ok_bind, Parsed.out]
    next other =>
      rw [exponent]
      · rfl
      · exact other

/-- At the end of the tokens there is no sign. -/
lemma read_unary_nil : p.read .unary room [] = p.read .primary room [] := by
  simp only [read, unary]

/-- In front of a token that is no sign there is none. -/
lemma read_unary_none {token : Token} (unsigned : token.value.sign? = none) :
    p.read .unary room (token :: rest) = p.read .primary room (token :: rest) := by
  simp only [read, unary]
  split
  · rfl
  next signed => cases unsigned.symm.trans signed

/-- A sign takes a level, and what it applies to may have a sign again. -/
lemma read_unary_some {token : Token} {sign} (signed : token.value.sign? = some sign) :
    p.read .unary room (token :: rest) =
      (p.reach rest >>= fun _ => match room with
        | 0 => p.tooDeep rest
        | room + 1 => p.read .unary room rest >>= fun operand =>
          .ok (.unary sign operand.1 token.position, operand.2)) := by
  simp only [read, unary]
  split
  next unsigned => cases signed.symm.trans unsigned
  next found =>
    cases signed.symm.trans found
    cases room <;> simp only [map_eq_bind, bind_assoc, ok_bind, Parsed.out]
    rfl

/-- At the end of the tokens an operand is missing. -/
lemma read_primary_nil :
    p.read .primary room [] = fail .unexpectedEndOfInput (p.place []) := by
  simp only [read, primary]
  rfl

/-- Reads the parenthesis that closes the one at the offset `opened`. -/
def close (opened : Nat) (tokens : List Token) : Except Error (List Token) :=
  (p.closing opened tokens).map Parsed.rest

/-- The parenthesis that closes is stepped past. -/
lemma close_closeParen (opened position : Nat) :
    p.close opened (⟨.closeParen, position⟩ :: rest) = (p.reach rest >>= fun _ => .ok rest) := by
  simp only [close, closing, map_eq_bind, bind_assoc, ok_bind]

/-- A numeral is an operand. -/
lemma read_primary_number (value : Float) (position : Nat) :
    p.read .primary room (⟨.number value, position⟩ :: rest) =
      (p.reach rest >>= fun _ => .ok (.number value position, rest)) := by
  simp only [read, primary, map_eq_bind, bind_assoc, ok_bind, Parsed.out]

/-- Parentheses hold a sum and give it as an operand. -/
lemma read_primary_openParen (opened : Nat) :
    p.read .primary room (⟨.openParen, opened⟩ :: rest) =
      (p.reach rest >>= fun _ => p.read (.chain .sum) room rest >>= fun inner =>
        p.close opened inner.2 >>= fun rest => .ok (inner.1, rest)) := by
  simp only [read, primary, close, map_eq_bind, bind_assoc, ok_bind, Parsed.out]

/-- A name is an operand together with the call that it starts. -/
lemma read_primary_name (name : String) (position : Nat) :
    p.read .primary room (⟨.name name, position⟩ :: rest) =
      (p.reach rest >>= fun _ => p.read (.call name position) room rest) := by
  simp only [read, primary, map_eq_bind, bind_assoc, ok_bind, Parsed.out]

/-- A closing parenthesis is no operand. -/
lemma read_primary_closeParen (position : Nat) :
    p.read .primary room (⟨.closeParen, position⟩ :: rest) =
      (p.reach rest >>= fun _ => fail (.unexpectedToken (Lexeme.text .closeParen)) position) := by
  simp only [read, primary, map_eq_bind, bind_assoc]
  rfl

/-- A comma is no operand. -/
lemma read_primary_comma (position : Nat) :
    p.read .primary room (⟨.comma, position⟩ :: rest) =
      (p.reach rest >>= fun _ => fail (.unexpectedToken (Lexeme.text .comma)) position) := by
  simp only [read, primary, map_eq_bind, bind_assoc]
  rfl

/-- An operator is no operand. -/
lemma read_primary_operator (op : Operator) (position : Nat) :
    p.read .primary room (⟨.operator op, position⟩ :: rest) =
      (p.reach rest >>= fun _ =>
        fail (.unexpectedToken (Lexeme.text (.operator op))) position) := by
  simp only [read, primary, map_eq_bind, bind_assoc]
  rfl

/-- The name of no function is refused before anything behind it is read. -/
lemma read_call_unknown {name : String} (unknown : p.context.arity? name = none)
    (position : Nat) :
    p.read (.call name position) room tokens = fail (.unknownFunction name) position := by
  simp only [read, call]
  split
  · rfl
  next known => cases unknown.symm.trans known

/-- A call that was read if it has as many arguments as its function is declared with. -/
def called (name : String) (position arity : Nat) (args : List Expr) (rest : List Token) :
    Except Error (Expr × List Token) :=
  if args.length = arity then .ok (.call name args position, rest)
  else fail (.wrongArity name arity args.length) position

/-- A call is read as its arguments in parentheses, and their number is compared at the end. -/
lemma read_call_openParen {name : String} {arity} (known : p.context.arity? name = some arity)
    (position opened : Nat) :
    p.read (.call name position) room (⟨.openParen, opened⟩ :: rest) =
      (p.reach rest >>= fun _ => p.read .arguments room rest >>= fun args =>
        p.close opened args.2 >>= fun rest => called name position arity args.1 rest) := by
  simp only [read, call]
  split
  next unknown => cases unknown.symm.trans known
  next found =>
    cases known.symm.trans found
    simp only [close, map_eq_bind, bind_assoc, ok_bind, Parsed.out, called]
    refine bind_congr fun _ => bind_congr fun args => bind_congr fun closed => ?_
    split <;> rfl

/-- The name of a function without a parenthesis behind it is refused. -/
lemma read_call_other {name : String} {arity} (known : p.context.arity? name = some arity)
    (other : ∀ opened rest, tokens ≠ ⟨.openParen, opened⟩ :: rest) (position : Nat) :
    p.read (.call name position) room tokens =
      fail (.missingCallParenthesis name) (p.place tokens) := by
  simp only [read, call]
  split
  next unknown => cases unknown.symm.trans known
  next => rfl

/-- A call that is closed at once has no arguments. -/
lemma read_arguments_closeParen (position : Nat) :
    p.read .arguments room (⟨.closeParen, position⟩ :: rest) =
      .ok ([], ⟨.closeParen, position⟩ :: rest) := by
  simp only [read, arguments]
  rfl

/-- A call that is not closed at once has an argument and those that follow it. -/
lemma read_arguments_other (other : ∀ position rest, tokens ≠ ⟨.closeParen, position⟩ :: rest) :
    p.read .arguments room tokens =
      (p.read (.chain .sum) room tokens >>= fun first =>
        p.read .moreArguments room first.2 >>= fun more => .ok (first.1 :: more.1, more.2)) := by
  simp only [read]
  rw [arguments]
  · simp only [map_eq_bind, bind_assoc, ok_bind, Parsed.out]
  · exact fun position rest same => other position rest same

/-- Behind a comma comes an argument and those that follow it. -/
lemma read_moreArguments_comma (position : Nat) :
    p.read .moreArguments room (⟨.comma, position⟩ :: rest) =
      (p.reach rest >>= fun _ => p.read (.chain .sum) room rest >>= fun arg =>
        p.read .moreArguments room arg.2 >>= fun more => .ok (arg.1 :: more.1, more.2)) := by
  simp only [read, moreArguments, map_eq_bind, bind_assoc, ok_bind, Parsed.out]

/-- Without a comma the arguments are over. -/
lemma read_moreArguments_other (other : ∀ position rest, tokens ≠ ⟨.comma, position⟩ :: rest) :
    p.read .moreArguments room tokens = .ok ([], tokens) := by
  simp only [read]
  rw [moreArguments]
  · rfl
  · exact fun position rest same => other position rest same

/-- What a function of the parser has read comes with a proof that the tokens got fewer. -/
lemma exists_of_map_out {α count} {x : Except Error (Parsed α count)} {value rest}
    (ok : x.map Parsed.out = .ok (value, rest)) :
    ∃ parsed : Parsed α count, parsed.value = value ∧ parsed.rest = rest := by
  cases x with
  | error error => cases ok
  | ok parsed =>
    cases ok
    exact ⟨parsed, rfl, rfl⟩

variable {p}

/-- Induction on the recursion of the parser. Where a rule goes on behind what another one has read,
the hypothesis is for what that one has read. -/
@[elab_as_elim]
theorem induct {motive : Rule → Nat → List Token → Prop}
    (chain : ∀ level room tokens, motive (.operand level) room tokens →
      (∀ first rest, p.read (.operand level) room tokens = .ok (first, rest) →
        motive (.links level first) room rest) →
      motive (.chain level) room tokens)
    (term : ∀ room tokens, motive (.chain .product) room tokens →
      motive (.operand .sum) room tokens)
    (factor : ∀ room tokens, motive .power room tokens → motive (.operand .product) room tokens)
    (linksNil : ∀ level left room, motive (.links level left) room [])
    (linksNone : ∀ level left room token rest, level.operator? token.value = none →
      motive (.links level left) room (token :: rest))
    (linksSome : ∀ level left room token rest op, level.operator? token.value = some op →
      motive (.operand level) (room - 1) rest →
      (∀ right behind, p.read (.operand level) (room - 1) rest = .ok (right, behind) →
        motive (.links level (.binary op left right token.position)) (room - 1) behind) →
      motive (.links level left) room (token :: rest))
    (powerZero : ∀ tokens, motive .power 0 tokens)
    (powerSucc : ∀ room tokens, motive .unary room tokens →
      (∀ base position rest,
        p.read .unary room tokens = .ok (base, ⟨.operator .power, position⟩ :: rest) →
        motive .power room rest) →
      motive .power (room + 1) tokens)
    (unaryNil : ∀ room, motive .primary room [] → motive .unary room [])
    (unaryNone : ∀ room token rest, token.value.sign? = none →
      motive .primary room (token :: rest) → motive .unary room (token :: rest))
    (unarySome : ∀ room token rest sign, token.value.sign? = some sign →
      (∀ room, motive .unary room rest) → motive .unary room (token :: rest))
    (primaryNil : ∀ room, motive .primary room [])
    (primaryNumber : ∀ room value position rest,
      motive .primary room (⟨.number value, position⟩ :: rest))
    (primaryOpenParen : ∀ room opened rest, motive (.chain .sum) room rest →
      motive .primary room (⟨.openParen, opened⟩ :: rest))
    (primaryName : ∀ room name position rest, motive (.call name position) room rest →
      motive .primary room (⟨.name name, position⟩ :: rest))
    (primaryOperator : ∀ room op position rest,
      motive .primary room (⟨.operator op, position⟩ :: rest))
    (primaryCloseParen : ∀ room position rest,
      motive .primary room (⟨.closeParen, position⟩ :: rest))
    (primaryComma : ∀ room position rest, motive .primary room (⟨.comma, position⟩ :: rest))
    (callUnknown : ∀ name position room tokens, p.context.arity? name = none →
      motive (.call name position) room tokens)
    (callOpenParen : ∀ name position room arity opened rest,
      p.context.arity? name = some arity → motive .arguments room rest →
      motive (.call name position) room (⟨.openParen, opened⟩ :: rest))
    (callOther : ∀ name position room arity tokens, p.context.arity? name = some arity →
      (∀ opened rest, tokens ≠ ⟨.openParen, opened⟩ :: rest) →
      motive (.call name position) room tokens)
    (argumentsCloseParen : ∀ room position rest,
      motive .arguments room (⟨.closeParen, position⟩ :: rest))
    (argumentsOther : ∀ room tokens, (∀ position rest, tokens ≠ ⟨.closeParen, position⟩ :: rest) →
      motive (.chain .sum) room tokens →
      (∀ first rest, p.read (.chain .sum) room tokens = .ok (first, rest) →
        motive .moreArguments room rest) →
      motive .arguments room tokens)
    (moreComma : ∀ room position rest, motive (.chain .sum) room rest →
      (∀ arg behind, p.read (.chain .sum) room rest = .ok (arg, behind) →
        motive .moreArguments room behind) →
      motive .moreArguments room (⟨.comma, position⟩ :: rest))
    (moreOther : ∀ room tokens, (∀ position rest, tokens ≠ ⟨.comma, position⟩ :: rest) →
      motive .moreArguments room tokens)
    (rule : Rule) (room : Nat) (tokens : List Token) : motive rule room tokens := by
  -- the recursion of the parser has one motive for each of its functions, in the order of these
  have all := Parser.chain.mutual_induct p
    (fun level room tokens => motive (.chain level) room tokens)
    (fun level room left tokens => motive (.links level left) room tokens)
    (fun level room tokens => motive (.operand level) room tokens)
    (fun room tokens => motive .power room tokens)
    (fun room tokens => motive .unary room tokens)
    (fun room tokens => motive .primary room tokens)
    (fun name position room tokens => motive (.call name position) room tokens)
    (fun room tokens => motive .arguments room tokens)
    (fun room tokens => motive .moreArguments room tokens)
    ?chain (fun level room left => linksNil level left room)
    (fun level room left => linksNone level left room) ?linksSome term factor powerZero ?powerSucc
    unaryNil unaryNone unarySome primaryNil ?primary callUnknown
    (fun name position room arity known opened rest =>
      callOpenParen name position room arity opened rest known)
    (fun name position room arity known tokens =>
      callOther name position room arity tokens known)
    argumentsCloseParen ?argumentsOther ?moreComma moreOther
  case chain =>
    intro level room tokens first links
    refine chain level room tokens first fun value rest ok => ?_
    obtain ⟨parsed, rfl, rfl⟩ := exists_of_map_out ok
    exact links parsed
  case linksSome =>
    intro level room left token rest op joins right links
    refine linksSome level left room token rest op joins right fun value behind ok => ?_
    obtain ⟨parsed, rfl, rfl⟩ := exists_of_map_out ok
    exact links parsed
  case powerSucc =>
    intro tokens room base exponent
    refine powerSucc room tokens base fun value position rest ok => ?_
    obtain ⟨parsed, -, behind⟩ := exists_of_map_out ok
    exact exponent parsed position rest behind
  case primary =>
    intro room lexeme position rest group called
    cases lexeme with
    | number value => exact primaryNumber room value position rest
    | name name => exact primaryName room name position rest (called name)
    | operator op => exact primaryOperator room op position rest
    | openParen => exact primaryOpenParen room position rest group
    | closeParen => exact primaryCloseParen room position rest
    | comma => exact primaryComma room position rest
  case argumentsOther =>
    intro room tokens other first more
    refine argumentsOther room tokens other first fun value rest ok => ?_
    obtain ⟨parsed, rfl, rfl⟩ := exists_of_map_out ok
    exact more parsed
  case moreComma =>
    intro room position rest arg more
    refine moreComma room position rest arg fun value behind ok => ?_
    obtain ⟨parsed, rfl, rfl⟩ := exists_of_map_out ok
    exact more parsed
  obtain ⟨chains, links, operands, powers, unaries, primaries, calls, argumentLists, more⟩ := all
  cases rule with
  | chain level => exact chains level room tokens
  | operand level => exact operands level room tokens
  | links level left => exact links level room left tokens
  | power => exact powers room tokens
  | unary => exact unaries room tokens
  | primary => exact primaries room tokens
  | call name position => exact calls name position room tokens
  | arguments => exact argumentLists room tokens
  | moreArguments => exact more room tokens

end Parser
end ArithExpr
