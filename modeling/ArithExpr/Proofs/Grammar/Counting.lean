import ArithExpr.Proofs.Grammar.Exactness

/-!
# A parser with a counter

The rules of the parser once more, with a counter in place of the levels that are left. It is one
counter for all rules, changed on the way: what goes a level deeper raises the depth and lowers it
again behind what it reads, whether that is a value or an error. Only the operators of a run raise
it without a look at the limit and do not lower it; the run goes back at its end to where it
started. The depth is a number of the machine, which can overflow, and every change is noted, so
that something can be said about each point of a run.
-/

namespace ArithExpr

/-- How deep a parser stands and how many tokens it has stepped past. -/
structure Tally where
  depth : Nat
  consumed : Nat

/-- What a parser counts. -/
structure Counter extends Tally where
  /-- The tallies behind all changes so far, the last one first. -/
  trail : List Tally

namespace Counter

/-- Notes what was changed. -/
def note (counter : Counter) : Counter :=
  { counter with trail := counter.toTally :: counter.trail }

/-- Stands at another depth. -/
def moveTo (counter : Counter) (depth : Nat) : Counter :=
  note { counter with depth }

/-- Goes one level deeper, if there is a number for it. -/
def raise (largest : Nat) (counter : Counter) : Option Counter :=
  if counter.depth < largest then some (counter.moveTo (counter.depth + 1)) else none

/-- Goes back one level. -/
def lower (counter : Counter) : Option Counter :=
  if counter.depth = 0 then none else some (counter.moveTo (counter.depth - 1))

/-- Stands behind one more token. -/
def stepOn (counter : Counter) : Counter :=
  note { counter with consumed := counter.consumed + 1 }

end Counter

/-- A run that changes a counter and ends with a value or an error, unless the counter overflows. -/
abbrev Counting (α : Type) := ExceptT Error (StateT Counter Option) α

namespace Counting
variable {α : Type} (p : Parser) (largest : Nat)

/-- Ends with an answer. -/
def answer (x : Except Error α) : Counting α :=
  fun counter => some (x, counter)

/-- Steps past the token in front of some others. -/
def advance (rest : List Token) : Counting Unit :=
  fun counter => match p.reach rest with
    | .error error => some (.error error, counter)
    | .ok () => some (.ok (), counter.stepOn)

/-- Goes one level deeper. -/
def raise : Counting Unit :=
  fun counter => do
    let deeper ← counter.raise largest
    some (.ok (), deeper)

/-- Reads one level deeper, if there is a level left. -/
def nested (tokens : List Token) (read : Counting α) : Counting α :=
  fun counter =>
    if p.limit ≤ counter.depth then some (p.tooDeep tokens, counter)
    else do
      let deeper ← counter.raise largest
      let (result, behind) ← read deeper
      let back ← behind.lower
      some (result, back)

/-- Reads and goes back to the depth from before. -/
def restoring (read : Counting α) : Counting α :=
  fun counter => do
    let (result, behind) ← read counter
    some (result, behind.moveTo counter.depth)

/-- Reads the parenthesis that closes the one at the offset `opened`, and steps past it. -/
def closing (opened : Nat) (tokens : List Token) : Counting (Parsed Unit tokens.length) :=
  fun counter => match p.closing opened tokens with
    | .error error => some (.error error, counter)
    | .ok closed => some (.ok closed, counter.stepOn)

mutual

/-- Reads a run of operands and groups it to the left. -/
def chain (level : Level) (tokens : List Token) : Counting (Parsed Expr tokens.length) :=
  restoring do
    let first ← operand level tokens
    have := first.shorter
    let all ← links level first.value first.rest
    return ⟨all.value, all.rest, Nat.lt_of_lt_of_le all.shorter first.shorter⟩
termination_by 8 * tokens.length + 2 * Parser.rank level + 2

/-- Reads an operand of a run. -/
def operand (level : Level) (tokens : List Token) : Counting (Parsed Expr tokens.length) :=
  match level with
  | .sum => chain .product tokens
  | .product => power tokens
termination_by 8 * tokens.length + 2 * Parser.rank level + 1
decreasing_by all_goals simp only [Parser.rank]; omega

/-- Reads the operators and operands that follow the part of a run that was read so far, each
operand one level deeper than the one before. -/
def links (level : Level) (left : Expr) (tokens : List Token) :
    Counting (Parsed Expr (tokens.length + 1)) :=
  match tokens with
  | [] => return ⟨left, [], Nat.lt_succ_self _⟩
  | token :: rest =>
    match level.operator? token.value with
    | none => return ⟨left, token :: rest, Nat.lt_succ_self _⟩
    | some op => do
      advance p rest
      -- no limit is looked at, and no level is gone back
      raise largest
      let right ← operand level rest
      have := right.shorter
      let all ← links level (.binary op left right.value token.position) right.rest
      return ⟨all.value, all.rest,
        Nat.lt_trans all.shorter (Nat.succ_lt_succ (Nat.lt_succ_of_lt right.shorter))⟩
termination_by 8 * tokens.length
decreasing_by all_goals have := Parser.rank_le level; simp only [List.length_cons]; omega

/-- Reads an operand of a product, one level deeper. -/
def power (tokens : List Token) : Counting (Parsed Expr tokens.length) :=
  nested p largest tokens do
    let base ← unary tokens
    match behind : base.rest with
    | ⟨.operator .power, position⟩ :: rest => do
      have shorter : rest.length + 1 < tokens.length :=
        Nat.lt_of_le_of_lt (Nat.le_of_eq (congrArg List.length behind).symm) base.shorter
      advance p rest
      let exponent ← power rest
      return ⟨.binary .power base.value exponent.value position, exponent.rest,
        Nat.lt_trans exponent.shorter (Nat.lt_of_succ_lt shorter)⟩
    | _ => return base
termination_by 8 * tokens.length + 2

/-- Reads an operand of a power: signs, each one level deeper than the one before, and what they
apply to. -/
def unary (tokens : List Token) : Counting (Parsed Expr tokens.length) :=
  match tokens with
  | [] => primary []
  | token :: rest =>
    match token.value.sign? with
    | none => primary (token :: rest)
    | some sign => do
      advance p rest
      nested p largest rest do
        let operand ← unary rest
        return ⟨.unary sign operand.value token.position, operand.rest,
          Nat.lt_succ_of_lt operand.shorter⟩
termination_by 8 * tokens.length + 1

/-- Reads a number, a call or an expression in parentheses. -/
def primary (tokens : List Token) : Counting (Parsed Expr tokens.length) :=
  match tokens with
  | [] => answer (Parser.fail .unexpectedEndOfInput (p.place []))
  | ⟨lexeme, position⟩ :: rest => do
    advance p rest
    match lexeme with
    | .number value => return ⟨.number value position, rest, Nat.lt_succ_self _⟩
    | .openParen => do
      let inner ← chain .sum rest
      let closed ← closing p position inner.rest
      return ⟨inner.value, closed.rest,
        Nat.lt_succ_of_lt (Nat.lt_trans closed.shorter inner.shorter)⟩
    | .name name => do
      let called ← call name position rest
      return ⟨called.value, called.rest, Nat.lt_succ_of_lt called.shorter⟩
    | lexeme => answer (Parser.fail (.unexpectedToken lexeme.text) position)
termination_by 8 * tokens.length
decreasing_by all_goals have := Parser.rank_le .sum; simp only [List.length_cons]; omega

/-- Reads what follows the name of a call. -/
def call (name : String) (position : Nat) (tokens : List Token) :
    Counting (Parsed Expr tokens.length) :=
  match p.context.arity? name with
  | none => answer (Parser.fail (.unknownFunction name) position)
  | some arity =>
    match tokens with
    | ⟨.openParen, opened⟩ :: rest => do
      advance p rest
      let args ← arguments rest
      let closed ← closing p opened args.rest
      if args.value.length = arity then
        return ⟨.call name args.value position, closed.rest,
          Nat.lt_trans closed.shorter args.shorter⟩
      else answer (Parser.fail (.wrongArity name arity args.value.length) position)
    | tokens => answer (Parser.fail (.missingCallParenthesis name) (p.place tokens))
termination_by 8 * tokens.length

/-- Reads the arguments of a call up to the closing parenthesis. -/
def arguments (tokens : List Token) : Counting (Parsed (List Expr) (tokens.length + 1)) :=
  match tokens with
  | ⟨.closeParen, position⟩ :: rest =>
    return ⟨[], ⟨.closeParen, position⟩ :: rest, Nat.lt_succ_self _⟩
  | tokens => do
    let first ← chain .sum tokens
    have := first.shorter
    let more ← moreArguments first.rest
    return ⟨first.value :: more.value, more.rest,
      Nat.lt_trans more.shorter (Nat.succ_lt_succ first.shorter)⟩
termination_by 8 * tokens.length + 7
decreasing_by all_goals have := Parser.rank_le .sum; omega

/-- Reads further arguments, each behind a comma. -/
def moreArguments (tokens : List Token) : Counting (Parsed (List Expr) (tokens.length + 1)) :=
  match tokens with
  | ⟨.comma, _⟩ :: rest => do
    advance p rest
    let arg ← chain .sum rest
    have := arg.shorter
    let more ← moreArguments arg.rest
    return ⟨arg.value :: more.value, more.rest,
      Nat.lt_trans more.shorter (Nat.succ_lt_succ (Nat.lt_succ_of_lt arg.shorter))⟩
  | tokens => return ⟨[], tokens, Nat.lt_succ_self _⟩
termination_by 8 * tokens.length
decreasing_by all_goals have := Parser.rank_le .sum; simp only [List.length_cons]; omega

end

/-- The number of tokens that a rule leaves fewer than. -/
abbrev width : Rule → List Token → Nat
  | .links _ _, tokens => tokens.length + 1
  | .arguments, tokens => tokens.length + 1
  | .moreArguments, tokens => tokens.length + 1
  | _, tokens => tokens.length

/-- Reads a rule off the front of the tokens. -/
def read : (rule : Rule) → (tokens : List Token) →
    Counting (Parsed rule.Value (width rule tokens))
  | .chain level, tokens => chain p largest level tokens
  | .operand level, tokens => operand p largest level tokens
  | .links level left, tokens => links p largest level left tokens
  | .power, tokens => power p largest tokens
  | .unary, tokens => unary p largest tokens
  | .primary, tokens => primary p largest tokens
  | .call name position, tokens => call p largest name position tokens
  | .arguments, tokens => arguments p largest tokens
  | .moreArguments, tokens => moreArguments p largest tokens

/-- Reads an expression that takes all tokens. -/
def whole (tokens : List Token) : Counting Expr := do
  answer (p.reach tokens)
  if tokens.isEmpty then answer (Parser.fail .emptyExpression (p.place tokens))
  else do
    let all ← chain p largest .sum tokens
    answer (Parser.ended all.value all.rest)

end Counting

/-- Reads an expression with functions of a context and at most `limit` levels, and counts from zero
with numbers up to `largest`. -/
def Expr.countingParse (context : Context) (limit largest : Nat) (text : String) :
    Option (Except Error Expr × Counter) :=
  let tokens := Tokens.ofText text
  Counting.whole ⟨context, limit, tokens.ending⟩ largest tokens.list ⟨⟨0, 0⟩, []⟩

end ArithExpr
