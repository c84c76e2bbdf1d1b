import ArithExpr.Expr.Basic
import ArithExpr.Expr.Parser.Basic

/-!
# From tokens to expressions

The grammar, from the loosest to the tightest binding:

```text
sum     := product (('+' | '-') product)*
product := power (('*' | '/') power)*
power   := unary ('^' power)?
unary   := ('-' | '+') unary | primary
primary := number | name '(' (sum (',' sum)*)? ')' | '(' sum ')'
```

Names and numbers of arguments are checked as calls are read. Every power and every operand of a
sign is one level deeper than what it stands in, and so is each further operand of a sum or product
than the one before; `room` counts the levels left.
-/

namespace ArithExpr
namespace Parser

/-- The place of a level in the order of the grammar's rules. Every call below either takes a token
or goes to a rule further down, and there are fewer than eight rules. -/
def rank : Level → Nat
  | .sum => 2
  | .product => 1

/-- No level comes before sums in the order of the rules. -/
theorem rank_le (level : Level) : rank level ≤ 2 := by
  cases level <;> decide

mutual

/-- Reads a run of operands and groups it to the left. -/
def chain (p : Parser) (level : Level) (room : Nat) (tokens : List Token) :
    Except Error (Parsed Expr tokens.length) := do
  let first ← p.operand level room tokens
  have := first.shorter
  let all ← p.links level room first.value first.rest
  .ok ⟨all.value, all.rest, Nat.lt_of_lt_of_le all.shorter first.shorter⟩
termination_by 8 * tokens.length + 2 * rank level + 2

/-- Reads an operand of a run. -/
def operand (p : Parser) (level : Level) (room : Nat) (tokens : List Token) :
    Except Error (Parsed Expr tokens.length) :=
  match level with
  | .sum => p.chain .product room tokens
  | .product => p.power room tokens
termination_by 8 * tokens.length + 2 * rank level + 1
decreasing_by all_goals simp only [rank]; omega

/-- Reads the operators and operands that follow the part of a run that was read so far. -/
def links (p : Parser) (level : Level) (room : Nat) (left : Expr) (tokens : List Token) :
    Except Error (Parsed Expr (tokens.length + 1)) :=
  match tokens with
  | [] => .ok ⟨left, [], Nat.lt_succ_self _⟩
  | token :: rest =>
    match level.operator? token.value with
    | none => .ok ⟨left, token :: rest, Nat.lt_succ_self _⟩
    | some op => do
      p.reach rest
      let right ← p.operand level (room - 1) rest
      have := right.shorter
      let all ← p.links level (room - 1) (.binary op left right.value token.position) right.rest
      .ok ⟨all.value, all.rest,
        Nat.lt_trans all.shorter (Nat.succ_lt_succ (Nat.lt_succ_of_lt right.shorter))⟩
termination_by 8 * tokens.length
decreasing_by all_goals have := rank_le level; simp only [List.length_cons]; omega

/-- Reads an operand of a product, one level deeper. -/
def power (p : Parser) (room : Nat) (tokens : List Token) :
    Except Error (Parsed Expr tokens.length) :=
  match room with
  | 0 => p.tooDeep tokens
  | room + 1 => do
    let base ← p.unary room tokens
    match behind : base.rest with
    | ⟨.operator .power, position⟩ :: rest => do
      have shorter : rest.length + 1 < tokens.length :=
        Nat.lt_of_le_of_lt (Nat.le_of_eq (congrArg List.length behind).symm) base.shorter
      p.reach rest
      let exponent ← p.power room rest
      .ok ⟨.binary .power base.value exponent.value position, exponent.rest,
        Nat.lt_trans exponent.shorter (Nat.lt_of_succ_lt shorter)⟩
    | _ => .ok base
termination_by 8 * tokens.length + 2

/-- Reads an operand of a power: signs, each one level deeper than the one before, and what they
apply to. -/
def unary (p : Parser) (room : Nat) (tokens : List Token) :
    Except Error (Parsed Expr tokens.length) :=
  match tokens with
  | [] => p.primary room []
  | token :: rest =>
    match token.value.sign? with
    | none => p.primary room (token :: rest)
    | some sign => do
      p.reach rest
      match room with
      | 0 => p.tooDeep rest
      | room + 1 => do
        let operand ← p.unary room rest
        .ok ⟨.unary sign operand.value token.position, operand.rest,
          Nat.lt_succ_of_lt operand.shorter⟩
termination_by 8 * tokens.length + 1

/-- Reads a number, a call or an expression in parentheses. -/
def primary (p : Parser) (room : Nat) (tokens : List Token) :
    Except Error (Parsed Expr tokens.length) :=
  match tokens with
  | [] => fail .unexpectedEndOfInput (p.place [])
  | ⟨lexeme, position⟩ :: rest => do
    p.reach rest
    match lexeme with
    | .number value => .ok ⟨.number value position, rest, Nat.lt_succ_self _⟩
    | .openParen => do
      let inner ← p.chain .sum room rest
      let closed ← p.closing position inner.rest
      .ok ⟨inner.value, closed.rest,
        Nat.lt_succ_of_lt (Nat.lt_trans closed.shorter inner.shorter)⟩
    | .name name => do
      let called ← p.call name position room rest
      .ok ⟨called.value, called.rest, Nat.lt_succ_of_lt called.shorter⟩
    | lexeme => fail (.unexpectedToken lexeme.text) position
termination_by 8 * tokens.length
decreasing_by all_goals have := rank_le .sum; simp only [List.length_cons]; omega

/-- Reads what follows the name of a call. -/
def call (p : Parser) (name : String) (position room : Nat) (tokens : List Token) :
    Except Error (Parsed Expr tokens.length) :=
  match p.context.arity? name with
  | none => fail (.unknownFunction name) position
  | some arity =>
    match tokens with
    | ⟨.openParen, opened⟩ :: rest => do
      p.reach rest
      let args ← p.arguments room rest
      let closed ← p.closing opened args.rest
      if args.value.length = arity then
        .ok ⟨.call name args.value position, closed.rest,
          Nat.lt_trans closed.shorter args.shorter⟩
      else fail (.wrongArity name arity args.value.length) position
    | tokens => fail (.missingCallParenthesis name) (p.place tokens)
termination_by 8 * tokens.length

/-- Reads the arguments of a call up to the closing parenthesis. -/
def arguments (p : Parser) (room : Nat) (tokens : List Token) :
    Except Error (Parsed (List Expr) (tokens.length + 1)) :=
  match tokens with
  | ⟨.closeParen, position⟩ :: rest =>
    .ok ⟨[], ⟨.closeParen, position⟩ :: rest, Nat.lt_succ_self _⟩
  | tokens => do
    let first ← p.chain .sum room tokens
    have := first.shorter
    let more ← p.moreArguments room first.rest
    .ok ⟨first.value :: more.value, more.rest,
      Nat.lt_trans more.shorter (Nat.succ_lt_succ first.shorter)⟩
termination_by 8 * tokens.length + 7
decreasing_by all_goals have := rank_le .sum; omega

/-- Reads further arguments, each behind a comma. -/
def moreArguments (p : Parser) (room : Nat) (tokens : List Token) :
    Except Error (Parsed (List Expr) (tokens.length + 1)) :=
  match tokens with
  | ⟨.comma, _⟩ :: rest => do
    p.reach rest
    let arg ← p.chain .sum room rest
    have := arg.shorter
    let more ← p.moreArguments room arg.rest
    .ok ⟨arg.value :: more.value, more.rest,
      Nat.lt_trans more.shorter (Nat.succ_lt_succ (Nat.lt_succ_of_lt arg.shorter))⟩
  | tokens => .ok ⟨[], tokens, Nat.lt_succ_self _⟩
termination_by 8 * tokens.length
decreasing_by all_goals have := rank_le .sum; simp only [List.length_cons]; omega

end

/-- Reads an expression that takes all tokens. -/
def whole (p : Parser) (tokens : List Token) : Except Error Expr := do
  p.reach tokens
  if tokens.isEmpty then fail .emptyExpression (p.place tokens)
  else do
    let all ← p.chain .sum p.limit tokens
    match all.rest with
    | [] => .ok all.value
    | ⟨.closeParen, position⟩ :: _ => fail .unmatchedParenthesis position
    | token :: _ => fail (.trailingInput token.value.text) token.position

end Parser

/-- Reads an expression with functions of a context and at most `limit` levels. -/
def Expr.parse (context : Context) (limit : Nat) (text : String) : Except Error Expr :=
  let tokens := Tokens.ofText text
  Parser.whole ⟨context, limit, tokens.ending⟩ tokens.list

end ArithExpr
