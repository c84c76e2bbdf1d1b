import ArithExpr.Proofs.Grammar.Exactness
import ArithExpr.Proofs.Token.Layout
import ArithExpr.Function.Standard

/-!
# The words of an expression

Walked through from left to right, with an operator between its operands and a sign or a name in
front of what it applies to, an expression has the tokens that it was read from, each where it
stands in the text (`Expr.tokens_of_parse`). Only parentheses and commas leave no node.

The headline `Expr.tokens_in_order` says the same of what the lexer lists, so that the places of
the nodes increase from left to right and lie inside the text.
-/

namespace ArithExpr

/-- Whether a word leaves a node in what is read. -/
def Lexeme.leavesNode : Lexeme → Bool
  | .openParen => false
  | .closeParen => false
  | .comma => false
  | _ => true

/-- The tokens that leave a node. -/
def nodeTokens (tokens : List Token) : List Token :=
  tokens.filter fun token => token.value.leavesNode

namespace Expr

mutual

/-- The words of the nodes of an expression from left to right, each at the place of its node. -/
def tokens : Expr → List Token
  | .number value position => [⟨.number value, position⟩]
  | .unary sign operand position => ⟨.operator sign.operator, position⟩ :: operand.tokens
  | .binary op left right position =>
    left.tokens ++ ⟨.operator op, position⟩ :: right.tokens
  | .call name args position => ⟨.name name, position⟩ :: tokensAll args

/-- The words of several expressions, one after the other. -/
def tokensAll : List Expr → List Token
  | [] => []
  | arg :: args => arg.tokens ++ tokensAll args

end

/-- The tokens of a single argument are its own. -/
lemma tokensAll_singleton (expr : Expr) : tokensAll [expr] = expr.tokens :=
  List.append_nil _

/-- The words of one expression, in front of others. -/
lemma tokens_append {expr : Expr} {rest words} (same : tokensAll [expr] ++ rest = words) :
    expr.tokens ++ rest = words := by
  rwa [tokensAll_singleton] at same

/-- The tokens of an argument are among those of all of them. -/
lemma tokens_subset_tokensAll {arg : Expr} {args} (mem : arg ∈ args) :
    arg.tokens ⊆ tokensAll args := by
  induction args with
  | nil => cases mem
  | cons first args ih =>
    obtain rfl | mem := List.mem_cons.1 mem
    · exact List.subset_append_left _ _
    · exact List.Subset.trans (ih mem) (List.subset_append_right _ _)

/-- A token of the arguments is one of some argument. -/
lemma exists_of_mem_tokensAll {args token} (mem : token ∈ tokensAll args) :
    ∃ arg ∈ args, token ∈ arg.tokens := by
  induction args with
  | nil => cases mem
  | cons first args ih =>
    obtain mem | mem := List.mem_append.1 mem
    · exact ⟨first, List.mem_cons_self, mem⟩
    · obtain ⟨arg, memArgs, mem⟩ := ih mem
      exact ⟨arg, List.mem_cons_of_mem _ memArgs, mem⟩

end Expr

/-- The words of what a rule goes on with. -/
def Rule.begun : Rule → List Token
  | .links _ left => left.tokens
  | .call name position => [⟨.name name, position⟩]
  | _ => []

section
variable {token : Token} {tokens : List Token} {position : Nat}

/-- A word that leaves a node is kept. -/
lemma nodeTokens_of_leavesNode (node : token.value.leavesNode = true) :
    nodeTokens (token :: tokens) = token :: nodeTokens tokens :=
  List.filter_cons_of_pos node

/-- An opening parenthesis leaves no node. -/
lemma nodeTokens_openParen :
    nodeTokens (⟨.openParen, position⟩ :: tokens) = nodeTokens tokens := rfl

/-- A closing parenthesis leaves no node. -/
lemma nodeTokens_closeParen :
    nodeTokens (⟨.closeParen, position⟩ :: tokens) = nodeTokens tokens := rfl

/-- A comma leaves no node. -/
lemma nodeTokens_comma : nodeTokens (⟨.comma, position⟩ :: tokens) = nodeTokens tokens := rfl

end

/-- The words of what is read are those of the tokens taken. -/
theorem Derivation.tokensAll_trees {rule : Rule} {value : rule.Value} {tokens rest}
    (d : Derivation rule value tokens rest) :
    Expr.tokensAll (rule.trees value) ++ nodeTokens rest = rule.begun ++ nodeTokens tokens := by
  induction d with
  | chain first links ihFirst ihLinks =>
    rw [Rule.trees, Expr.tokensAll_singleton] at ihFirst
    exact ihLinks.trans ihFirst
  | term d ih => exact ih
  | factor d ih => exact ih
  | done => rw [Rule.trees, Expr.tokensAll_singleton, Rule.begun]
  | @link _ op left right _ position tokens middle rest joins _ more ihRight ihMore =>
    -- the run so far and the new operand are the operands of the node that goes on with the run
    have read : right.tokens ++ nodeTokens middle = nodeTokens tokens :=
      Expr.tokens_append ihRight
    rw [nodeTokens_of_leavesNode rfl, ← read]
    refine ihMore.trans ?_
    rw [Rule.begun, Expr.tokens, List.append_assoc, List.cons_append]
    rfl
  | base d ih => exact ih
  | @power left right position tokens middle rest _ _ ihLeft ihRight =>
    have base : left.tokens ++ ⟨.operator .power, position⟩ :: nodeTokens middle =
        nodeTokens tokens := by
      rw [← nodeTokens_of_leavesNode rfl]
      exact Expr.tokens_append ihLeft
    have exponent : right.tokens ++ nodeTokens rest = nodeTokens middle :=
      Expr.tokens_append ihRight
    rw [← exponent] at base
    rw [Rule.trees, Expr.tokensAll_singleton, Expr.tokens, List.append_assoc, List.cons_append]
    exact base
  | @sign sign _ operand position tokens rest same _ ih =>
    have read : operand.tokens ++ nodeTokens rest = nodeTokens tokens :=
      Expr.tokens_append ih
    rw [Rule.trees, Expr.tokensAll_singleton, Expr.tokens, List.cons_append, read,
      nodeTokens_of_leavesNode rfl, same]
    rfl
  | unsigned d ih => exact ih
  | number =>
    rw [nodeTokens_of_leavesNode rfl, Rule.trees, Expr.tokensAll_singleton]
    rfl
  | group d ih =>
    rw [nodeTokens_closeParen] at ih
    exact ih
  | named d ih =>
    rw [nodeTokens_of_leavesNode rfl]
    exact ih
  | @call name position args _ _ tokens rest _ ih =>
    have read : Expr.tokensAll args ++ nodeTokens rest = nodeTokens tokens := by
      rw [nodeTokens_closeParen] at ih
      exact ih
    rw [nodeTokens_openParen, ← read, Rule.trees, Expr.tokensAll_singleton]
    rfl
  | noArguments => rfl
  | @arguments first more tokens middle rest _ _ ihFirst ihMore =>
    have head : first.tokens ++ nodeTokens middle = nodeTokens tokens :=
      Expr.tokens_append ihFirst
    have tail : Expr.tokensAll more ++ nodeTokens rest = nodeTokens middle := ihMore
    rw [← tail] at head
    rw [Rule.trees, Expr.tokensAll, List.append_assoc]
    exact head
  | lastArgument => rfl
  | @nextArgument arg more _ tokens middle rest _ _ ihArg ihMore =>
    have head : arg.tokens ++ nodeTokens middle = nodeTokens tokens :=
      Expr.tokens_append ihArg
    have tail : Expr.tokensAll more ++ nodeTokens rest = nodeTokens middle := ihMore
    rw [← tail] at head
    rw [nodeTokens_comma, Rule.trees, Expr.tokensAll, List.append_assoc]
    exact head

/-- The words of an expression that is read are the tokens of its text that leave a node. -/
theorem Expr.tokens_of_parse {context limit text expr}
    (ok : parse context limit text = .ok expr) :
    expr.tokens = nodeTokens (Tokens.ofText text).list := by
  obtain ⟨-, ⟨d⟩, -⟩ := DerivedFrom.of_parse ok
  have same := d.tokensAll_trees
  rw [Rule.trees, tokensAll_singleton, nodeTokens, List.filter_nil, List.append_nil] at same
  exact same

/-- The places of the tokens that leave a node are among those of all tokens, in the same order. -/
lemma map_position_nodeTokens_sublist (tokens : List Token) :
    ((nodeTokens tokens).map Located.position).Sublist (tokens.map Located.position) :=
  List.filter_sublist.map _

/-- Of a text that is read the lexer lists some tokens and the end of the text behind them. Those
that leave a node are the words of the expression from left to right, and their places increase and
lie inside the text. -/
theorem Expr.tokens_in_order {context limit text expr}
    (ok : parse context limit text = .ok expr) :
    ∃ tokens : List Token,
      (∀ n, (Lexer.step^[n] (.start text)).next.1 =
        (tokens.map (fun token => .ok (token.map some)) ++ [.ok ⟨none, text.length⟩])[n]?) ∧
      expr.tokens = nodeTokens tokens ∧
      (expr.tokens.map Located.position).Pairwise (· < ·) ∧
      ∀ place ∈ expr.tokens.map Located.position, place < text.length := by
  have layout := Tokens.ofText_eq_iff.1 (Eq.refl (Tokens.ofText text))
  obtain ⟨stop, finish⟩ := (DerivedFrom.of_parse ok).exists_finish
  obtain rfl : stop = text.length := by
    rw [layout.position_of_finish finish, Nat.zero_add, String.length_toList]
  have sublist := map_position_nodeTokens_sublist (Tokens.ofText text).list
  have places := layout.pairwise_places
  rw [Tokens.places, finish, List.pairwise_append] at places
  obtain ⟨increasing, -, inside⟩ := places
  refine ⟨(Tokens.ofText text).list, fun n => ?_, tokens_of_parse ok, ?_⟩
  · have listed := Lexer.next_iterate (.start text) n
    rw [Tokens.answers, show (Cursor.start text).tokens.ending = _ from finish] at listed
    exact listed
  · rw [tokens_of_parse ok]
    exact ⟨increasing.sublist sublist, fun place mem =>
      inside place (sublist.subset mem) _ List.mem_cons_self⟩

/-- A sign in front of a difference in parentheses, and a call. -/
theorem Expr.tokens_in_order_of_product :
    ∃ expr, parse Standard.context 5 "-(2-1)*ln(3)" = .ok expr ∧
      (expr.tokens.map Located.position).Pairwise (· < ·) ∧
      ∀ place ∈ expr.tokens.map Located.position, place < 12 := by
  obtain ⟨expr, ok⟩ : ∃ expr, parse Standard.context 5 "-(2-1)*ln(3)" = .ok expr :=
    exists_of_isOk (by decide +kernel)
  obtain ⟨tokens, -, -, increasing, inside⟩ := tokens_in_order ok
  exact ⟨expr, ok, increasing, inside⟩

end ArithExpr
