import ArithExpr.Evaluator
import ArithExpr.Proofs.Grammar.Places
import ArithExpr.Proofs.Grammar.Printing
import ArithExpr.Proofs.Token.Layout

/-!
# Expressions inside others

A text that can be read is read alike inside a longer one, as long as a symbol stands behind it: its
tokens are the same, only moved, and so is what they are derived from. Main statement: texts in
parentheses may be put together with an operator, a sign or a name, which takes two levels more at
most (`Evaluator.composes`).
-/

namespace ArithExpr

/-- Moves an expression to the right. -/
abbrev Expr.shift (expr : Expr) (offset : Nat) : Expr :=
  expr.relocate (· + offset)

namespace Layout
variable {position : Nat} {text : List Char} {tokens : Tokens}

/-- The tokens of a text further to the right are moved with it. -/
lemma shift (layout : Layout position text tokens) (offset : Nat) :
    Layout (position + offset) text (tokens.relocate (· + offset)) := by
  induction layout with
  | @finish position gap blank =>
    have moved : Layout (position + offset) gap _ := .finish blank
    rwa [Nat.add_right_comm] at moved
  | @fault position gap taken rest reason blank ends fails =>
    have moved : Layout (position + offset) _ _ := .fault blank ends fails
    rwa [Nat.add_right_comm position, Nat.add_right_comm] at moved
  | @word position gap text rest lexeme goesOn tokens blank spells ends _ ih =>
    rw [← Nat.add_right_comm _ offset, ← Nat.add_right_comm position] at ih
    have moved := Layout.word blank spells ends ih
    rwa [Nat.add_right_comm] at moved

/-- Behind the tokens of a text come those of what follows it, if that starts with a symbol. -/
lemma tokens_append {stop} (layout : Layout position text tokens)
    (finish : tokens.ending = .finish stop) {c lexeme}
    (symbol : Lexeme.ofSymbol? c = some lexeme) (rest : List Char) :
    Cursor.tokens ⟨text ++ c :: rest, position⟩ =
      ⟨tokens.list ++ (Cursor.tokens ⟨c :: rest, position + text.length⟩).list,
        (Cursor.tokens ⟨c :: rest, position + text.length⟩).ending⟩ := by
  induction layout with
  | @finish position gap blank =>
    rw [Cursor.tokens_of_skipBlanks (Cursor.skipBlanks_append blank _ _)]
    rfl
  | fault _ _ _ => cases finish
  | @word position gap text behind lexeme goesOn tokens blank spells ends _ ih =>
    -- the symbol goes on with no word, not even with the last one
    have ends' : Cut.Ends goesOn (behind ++ c :: rest) := by
      cases behind with
      | nil => exact Cut.ends_cons.2 (spells.not_goesOn_of_symbol symbol)
      | cons d behind => exact Cut.ends_cons.2 (Cut.ends_cons.1 ends)
    have length : position + gap.length + text.length + behind.length =
        position + (gap ++ (text ++ behind)).length := by
      simp only [List.length_append]
      omega
    rw [List.append_assoc, List.append_assoc,
      Cursor.tokens_of_skipBlanks (Cursor.skipBlanks_append blank _ _),
      Cursor.tokens_of_spells spells ends', ih finish, length]
    rfl

end Layout

/-- A rule reads a value off the front of some tokens within a number of levels. -/
def DerivedWithin (levels : Nat) (rule : Rule) (value : rule.Value) (tokens rest : List Token) :
    Prop :=
  ∃ d : Derivation rule value tokens rest, d.cost ≤ levels

namespace Cursor

/-- A rule reads a value at a place within a number of levels, with right calls, and goes on at
another place. -/
structure Reads (context : Context) (levels : Nat) (rule : Rule) (value : rule.Value)
    (cursor stop : Cursor) : Prop where
  derived : DerivedWithin levels rule value cursor.tokens.list stop.tokens.list
  ending : cursor.tokens.ending = stop.tokens.ending
  called : ∀ tree ∈ rule.trees value, tree.WellCalled context

end Cursor

namespace Expr
variable {context : Context} {levels limit position : Nat} {text : String} {tree : Expr}
variable {characters rest : List Char}

/-- A text that is read is read alike further to the right. -/
lemma derived_shift_of_parse (ok : parse context limit text = .ok tree) (offset : Nat) :
    DerivedWithin limit (.chain .sum) (tree.shift offset)
        ((Tokens.ofText text).relocate (· + offset)).list [] ∧
      (tree.shift offset).WellCalled context := by
  have moves := Parser.whole_moves (· + offset) ⟨context, limit, (Tokens.ofText text).ending⟩
    (Tokens.ofText text).list
  rw [Parser.Moves, show Parser.whole _ _ = _ from ok] at moves
  obtain ⟨derived, called, -, -⟩ := Parser.whole_sound moves
  exact ⟨derived, called _ List.mem_cons_self⟩

/-- A text that is read on its own is read alike in front of a symbol. -/
lemma reads_of_parse (ok : parse context limit text = .ok tree) (offset : Nat) {c lexeme}
    (symbol : Lexeme.ofSymbol? c = some lexeme) (rest : List Char) :
    Cursor.Reads context limit (.chain .sum) (tree.shift offset) ⟨text.toList ++ c :: rest, offset⟩
      ⟨c :: rest, offset + text.length⟩ := by
  have layout := (Tokens.layout_ofText text).shift offset
  rw [Nat.zero_add] at layout
  obtain ⟨stop, finish⟩ := (DerivedFrom.of_parse ok).exists_finish
  obtain ⟨⟨d, cost⟩, called⟩ := derived_shift_of_parse ok offset
  obtain ⟨taken, whole, d'⟩ := d.exists_taken
  obtain ⟨d', cost'⟩ := d' (Cursor.tokens ⟨c :: rest, offset + text.length⟩).list
  have tokens := layout.tokens_append (congrArg (Ending.relocate (· + offset)) finish) symbol rest
  rw [String.length_toList] at tokens
  rw [List.append_nil] at whole
  refine ⟨?_, by rw [tokens], List.forall_mem_singleton.2 called⟩
  rw [tokens, whole]
  exact ⟨d', cost'.trans_le cost⟩

/-- What is read at the start of a text and up to its end is what the text stands for. -/
lemma parse_of_reads (stop : Nat)
    (reads : Cursor.Reads context limit (.chain .sum) tree (.start text) ⟨[], stop⟩) :
    parse context limit text = .ok tree := by
  obtain ⟨derived, ending, called⟩ := reads
  have ends : Cursor.tokens ⟨[], stop⟩ = ⟨[], .finish stop⟩ := Cursor.tokens_of_end rfl
  rw [ends] at derived ending
  obtain ⟨d, cost⟩ := derived
  exact Parser.whole_complete ending d cost (called _ List.mem_cons_self)

end Expr

namespace Cursor.Reads
variable {context : Context} {levels position stop : Nat} {tree left right : Expr}
variable {characters rest : List Char} {cursor behind : Cursor}

/-- More levels do no harm. -/
lemma mono {rule : Rule} {value : rule.Value} {levels'} (le : levels ≤ levels')
    (reads : Reads context levels rule value cursor behind) :
    Reads context levels' rule value cursor behind := by
  obtain ⟨⟨d, cost⟩, ending, called⟩ := reads
  exact ⟨⟨d, cost.trans le⟩, ending, called⟩

/-- Parentheses make an expression one that needs none, and take no level. -/
lemma group (inner : Reads context levels (.chain .sum) tree ⟨characters, position + 1⟩
      ⟨')' :: rest, stop⟩) :
    Reads context levels .primary tree ⟨'(' :: characters, position⟩ ⟨rest, stop + 1⟩ := by
  obtain ⟨derived, ending, called⟩ := inner
  rw [tokens_symbol (c := ')') rfl] at derived ending
  obtain ⟨d, cost⟩ := derived
  refine ⟨?_, ?_, called⟩
  all_goals rw [tokens_symbol (c := '(') rfl]
  · exact ⟨.group d, cost⟩
  · exact ending

/-- The name of a known function and its arguments in parentheses are a call. -/
lemma call {name : String} {builtin : Builtin} {args : List Expr} (isName : Expr.IsName name)
    (found : context.find? name = some builtin) (arity : builtin.arity = args.length)
    (inner : Reads context levels .arguments args ⟨characters, position + name.length + 1⟩
      ⟨')' :: rest, stop⟩) :
    Reads context levels .primary (.call name args position)
      ⟨name.toList ++ '(' :: characters, position⟩ ⟨rest, stop + 1⟩ := by
  obtain ⟨derived, ending, called⟩ := inner
  rw [tokens_symbol (c := ')') rfl] at derived ending
  obtain ⟨d, cost⟩ := derived
  have spells := Cut.Spells.name isName.1 isName.2
  rw [String.ofList_toList] at spells
  refine ⟨?_, ?_, List.forall_mem_singleton.2 (.call found arity called)⟩
  all_goals
    rw [tokens_of_spells spells (Cut.ends_cons.2 (by decide)), tokens_symbol (c := '(') rfl,
      String.length_toList]
  · exact ⟨.named (.call d), cost⟩
  · exact ending

/-- A numeral is read where nothing goes on with it. -/
lemma number {value : Float} {word goesOn} (spells : Cut.Spells word (.number value) goesOn)
    (ends : Cut.Ends goesOn rest) :
    Reads context levels .primary (.number value position) ⟨word ++ rest, position⟩
      ⟨rest, position + word.length⟩ := by
  refine ⟨?_, ?_, List.forall_mem_singleton.2 .number⟩
  all_goals rw [tokens_of_spells spells ends]
  exact ⟨.number, Nat.zero_le _⟩

/-- What needs no parentheses may stand without a sign. -/
lemma unsigned (reads : Reads context levels .primary tree cursor behind) :
    Reads context levels .unary tree cursor behind := by
  obtain ⟨⟨d, cost⟩, ending, called⟩ := reads
  exact ⟨⟨.unsigned d, cost⟩, ending, called⟩

/-- What stands without a power takes the level that a power would take. -/
lemma base (reads : Reads context levels .unary tree cursor behind) :
    Reads context (levels + 1) .power tree cursor behind := by
  obtain ⟨⟨d, cost⟩, ending, called⟩ := reads
  refine ⟨⟨.base d, ?_⟩, ending, called⟩
  simp only [Derivation.cost]
  omega

/-- A base and an exponent with the operator between them are a power. -/
lemma power (base : Reads context levels .unary left cursor ⟨'^' :: characters, position⟩)
    (exponent : Reads context levels .power right ⟨characters, position + 1⟩ behind) :
    Reads context (levels + 1) .power (.binary .power left right position) cursor behind := by
  obtain ⟨derivedLeft, endingLeft, calledLeft⟩ := base
  rw [tokens_symbol (c := '^') rfl] at derivedLeft endingLeft
  obtain ⟨l, costLeft⟩ := derivedLeft
  obtain ⟨⟨r, costRight⟩, endingRight, calledRight⟩ := exponent
  refine ⟨⟨.power l r, ?_⟩, endingLeft.trans endingRight, List.forall_mem_singleton.2
    (.binary (calledLeft _ List.mem_cons_self) (calledRight _ List.mem_cons_self))⟩
  simp only [Derivation.cost]
  omega

/-- A power is an operand of a product. -/
lemma factor (reads : Reads context levels .power tree cursor behind) :
    Reads context levels (.operand .product) tree cursor behind := by
  obtain ⟨⟨d, cost⟩, ending, called⟩ := reads
  exact ⟨⟨.factor d, cost⟩, ending, called⟩

/-- A product is an operand of a sum. -/
lemma term (reads : Reads context levels (.chain .product) tree cursor behind) :
    Reads context levels (.operand .sum) tree cursor behind := by
  obtain ⟨⟨d, cost⟩, ending, called⟩ := reads
  exact ⟨⟨.term d, cost⟩, ending, called⟩

/-- A run may end behind any of its operands. -/
lemma done {level : Level} (called : left.WellCalled context) :
    Reads context levels (.links level left) left cursor cursor :=
  ⟨⟨.done, Nat.zero_le _⟩, rfl, List.forall_mem_singleton.2 called⟩

/-- A run goes on with an operator and an operand, one level deeper. -/
lemma link {level : Level} {op : Operator} {middle : Cursor} (joins : op ∈ level.operators)
    (operand : Reads context levels (.operand level) right ⟨characters, position + 1⟩ middle)
    (links : Reads context levels (.links level (.binary op left right position)) tree middle
      behind) :
    Reads context (levels + 1) (.links level left) tree ⟨op.symbol :: characters, position⟩
      behind := by
  have symbol : Lexeme.ofSymbol? op.symbol = some (.operator op) := by
    cases op <;> rfl
  obtain ⟨⟨r, costRight⟩, endingRight, -⟩ := operand
  obtain ⟨⟨more, costMore⟩, endingMore, called⟩ := links
  refine ⟨?_, ?_, called⟩
  all_goals rw [tokens_symbol symbol]
  · refine ⟨.link joins r more, ?_⟩
    simp only [Derivation.cost]
    omega
  · exact endingRight.trans endingMore

/-- The first operand and the operators and operands behind it make a run. -/
lemma chain {level : Level} {middle : Cursor}
    (operand : Reads context levels (.operand level) left cursor middle)
    (links : Reads context levels (.links level left) tree middle behind) :
    Reads context levels (.chain level) tree cursor behind := by
  obtain ⟨⟨d, cost⟩, ending, -⟩ := operand
  obtain ⟨⟨ds, costs⟩, endings, called⟩ := links
  exact ⟨⟨.chain d ds, Nat.max_le.2 ⟨cost, costs⟩⟩, ending.trans endings, called⟩

/-- A run of one operand. -/
lemma single {level : Level} (reads : Reads context levels (.operand level) tree cursor behind) :
    Reads context levels (.chain level) tree cursor behind :=
  reads.chain (.done (reads.called _ List.mem_cons_self))

/-- What needs no parentheses is one level deeper as an operand. -/
lemma operand (reads : Reads context levels .primary tree cursor behind) (level : Level) :
    Reads context (levels + 1) (.operand level) tree cursor behind := by
  have factor := reads.unsigned.base.factor
  cases level with
  | product => exact factor
  | sum => exact factor.single.term

/-- What needs no parentheses is one level deeper as a sum. -/
lemma sum (reads : Reads context levels .primary tree cursor behind) :
    Reads context (levels + 1) (.chain .sum) tree cursor behind :=
  (reads.operand .sum).single

/-- A sign takes a level from what it stands in front of. -/
lemma sign {sign : Sign} (reads : Reads context levels .unary tree ⟨characters, position + 1⟩
      behind) :
    Reads context (levels + 1) .unary (.unary sign tree position)
      ⟨sign.symbol :: characters, position⟩ behind := by
  have symbol : Lexeme.ofSymbol? sign.symbol = some (.operator sign.operator) := by
    cases sign <;> rfl
  obtain ⟨⟨d, cost⟩, ending, called⟩ := reads
  refine ⟨?_, ?_, List.forall_mem_singleton.2 (.unary (called _ List.mem_cons_self))⟩
  all_goals rw [tokens_symbol symbol]
  · refine ⟨.sign rfl d, ?_⟩
    simp only [Derivation.cost]
    omega
  · exact ending

/-- A sign in front of what needs no parentheses. -/
lemma unary {sign : Sign} (reads : Reads context levels .primary tree
      ⟨characters, position + 1⟩ behind) :
    Reads context (levels + 2) (.chain .sum) (.unary sign tree position)
      ⟨sign.symbol :: characters, position⟩ behind :=
  reads.unsigned.sign.base.factor.single.term.single

/-- An operator between what needs no parentheses. -/
lemma binary {op : Operator}
    (outer : Reads context levels .primary left cursor ⟨op.symbol :: characters, position⟩)
    (inner : Reads context levels .primary right ⟨characters, position + 1⟩ behind) :
    Reads context (levels + 2) (.chain .sum) (.binary op left right position) cursor behind := by
  have called : (Expr.binary op left right position).WellCalled context :=
    .binary (outer.called _ List.mem_cons_self) (inner.called _ List.mem_cons_self)
  have run (level : Level) (joins : op ∈ level.operators) :
      Reads context (levels + 2) (.chain level) (.binary op left right position) cursor behind :=
    ((outer.operand level).mono (Nat.le_succ _)).chain
      ((inner.operand level).link joins (.done called))
  cases op with
  | add => exact run .sum (by decide)
  | subtract => exact run .sum (by decide)
  | multiply => exact (run .product (by decide)).term.single
  | divide => exact (run .product (by decide)).term.single
  | power =>
    have base := outer.unsigned.mono (Nat.le_succ levels)
    exact (base.power inner.unsigned.base).factor.single.term.single

/-- The first argument and the ones behind it are the arguments of a call. -/
lemma arguments {first : Expr} {more : List Expr} {middle : Cursor}
    (head : Reads context levels (.chain .sum) first cursor middle)
    (tail : Reads context levels .moreArguments more middle behind) :
    Reads context levels .arguments (first :: more : List Expr) cursor behind := by
  obtain ⟨⟨d, cost⟩, ending, called⟩ := head
  obtain ⟨⟨ds, costs⟩, endings, calleds⟩ := tail
  exact ⟨⟨.arguments d ds, Nat.max_le.2 ⟨cost, costs⟩⟩, ending.trans endings,
    List.forall_mem_cons.2 ⟨called _ List.mem_cons_self, calleds⟩⟩

/-- The arguments may end behind any one of them. -/
lemma lastArgument : Reads context levels .moreArguments ([] : List Expr) cursor cursor :=
  ⟨⟨.lastArgument, Nat.zero_le _⟩, rfl, List.forall_mem_nil _⟩

/-- A comma and an argument go on with the arguments behind them. -/
lemma nextArgument {arg : Expr} {more : List Expr} {middle : Cursor}
    (head : Reads context levels (.chain .sum) arg ⟨characters, position + 1⟩ middle)
    (tail : Reads context levels .moreArguments more middle behind) :
    Reads context levels .moreArguments (arg :: more : List Expr)
      ⟨',' :: characters, position⟩ behind := by
  obtain ⟨⟨d, cost⟩, ending, called⟩ := head
  obtain ⟨⟨ds, costs⟩, endings, calleds⟩ := tail
  refine ⟨?_, ?_, List.forall_mem_cons.2 ⟨called _ List.mem_cons_self, calleds⟩⟩
  all_goals rw [tokens_symbol (c := ',') rfl]
  · exact ⟨.nextArgument d ds, Nat.max_le.2 ⟨cost, costs⟩⟩
  · exact ending.trans endings

end Cursor.Reads

namespace Expr
variable {context : Context} {limit : Nat}

/-- The expressions of texts that are written from an offset on with one character between them. -/
def placed : Nat → List (String × Expr) → List Expr
  | _, [] => []
  | offset, (text, tree) :: parts => tree.shift offset :: placed (offset + text.length + 1) parts

/-- There are as many expressions as texts. -/
lemma length_placed (offset : Nat) (parts : List (String × Expr)) :
    (placed offset parts).length = parts.length := by
  induction parts generalizing offset with
  | nil => rfl
  | cons part parts ih => rw [placed, List.length_cons, ih, List.length_cons]

/-- Texts, each behind a comma. -/
def behindCommas (parts : List (String × Expr)) : List Char :=
  parts.flatMap fun part => ',' :: part.1.toList

/-- Texts with commas between them are the first one and the others behind commas. -/
lemma toList_intercalate (part : String × Expr) (parts : List (String × Expr)) :
    (",".intercalate ((part :: parts).map Prod.fst)).toList =
      part.1.toList ++ behindCommas parts := by
  induction parts generalizing part with
  | nil => simp [behindCommas]
  | cons next parts ih =>
    have behind := ih next
    rw [List.map_cons] at behind
    rw [List.map_cons, List.map_cons, String.intercalate_cons_cons, String.toList_append,
      String.toList_append, behind]
    simp [behindCommas]

/-- Behind an argument comes a comma or the parenthesis that closes the call. -/
lemma exists_symbol_behindCommas (parts : List (String × Expr)) (rest : List Char) :
    ∃ c lexeme tail, behindCommas parts ++ ')' :: rest = c :: tail ∧
      Lexeme.ofSymbol? c = some lexeme := by
  cases parts with
  | nil => exact ⟨_, _, _, rfl, rfl⟩
  | cons part parts => exact ⟨_, _, _, rfl, rfl⟩

/-- Texts behind commas are read up to the parenthesis behind them. -/
lemma reads_moreArguments {parts : List (String × Expr)}
    (each : ∀ part ∈ parts, parse context limit part.1 = .ok part.2) (offset : Nat)
    (rest : List Char) :
    ∃ stop, Cursor.Reads context limit .moreArguments (placed (offset + 1) parts)
      ⟨behindCommas parts ++ ')' :: rest, offset⟩ ⟨')' :: rest, stop⟩ := by
  induction parts generalizing offset with
  | nil => exact ⟨offset, .lastArgument⟩
  | cons part parts ih =>
    obtain ⟨first, others⟩ := List.forall_mem_cons.1 each
    obtain ⟨stop, tail⟩ := ih others (offset + 1 + part.1.length)
    obtain ⟨c, lexeme, behind, starts, symbol⟩ := exists_symbol_behindCommas parts rest
    have head := reads_of_parse first (offset + 1) symbol behind
    refine ⟨stop, ?_⟩
    rw [starts] at tail
    rw [behindCommas, List.flatMap_cons, List.append_assoc, List.cons_append]
    show Cursor.Reads context limit .moreArguments (part.2.shift (offset + 1) :: _)
      ⟨',' :: (part.1.toList ++ (behindCommas parts ++ _)), _⟩ _
    rw [starts]
    exact head.nextArgument tail

/-- The texts of arguments with commas between them are read up to the parenthesis behind them. -/
lemma reads_arguments {parts : List (String × Expr)}
    (each : ∀ part ∈ parts, parse context limit part.1 = .ok part.2) (offset : Nat)
    (rest : List Char) :
    ∃ stop, Cursor.Reads context limit .arguments (placed offset parts)
      ⟨(",".intercalate (parts.map Prod.fst)).toList ++ ')' :: rest, offset⟩
      ⟨')' :: rest, stop⟩ := by
  cases parts with
  | nil => exact ⟨offset, ⟨.noArguments, Nat.zero_le _⟩, rfl, List.forall_mem_nil _⟩
  | cons part parts =>
    obtain ⟨first, others⟩ := List.forall_mem_cons.1 each
    obtain ⟨stop, tail⟩ := reads_moreArguments others (offset + part.1.length) rest
    obtain ⟨c, lexeme, behind, starts, symbol⟩ := exists_symbol_behindCommas parts rest
    have head := reads_of_parse first offset symbol behind
    refine ⟨stop, ?_⟩
    rw [toList_intercalate, List.append_assoc, starts]
    rw [starts] at tail
    exact head.arguments tail

section Texts
variable {text left right name : String} {tree leftTree rightTree : Expr}

/-- A text that is read is read in parentheses, one character further to the right. -/
lemma parse_group (ok : parse context limit text = .ok tree) :
    parse context (limit + 2) ("(" ++ text ++ ")") = .ok (tree.shift 1) := by
  have start : Cursor.start ("(" ++ text ++ ")") = ⟨'(' :: (text.toList ++ [')']), 0⟩ := by
    simp [Cursor.start]
  have inner := reads_of_parse ok (0 + 1) (c := ')') rfl []
  refine parse_of_reads (0 + 1 + text.length + 1) ?_
  rw [start]
  exact inner.group.sum.mono (Nat.le_succ _)

/-- Two texts that are read are read in parentheses with an operator between them. -/
lemma parse_binary (op : Operator) (okLeft : parse context limit left = .ok leftTree)
    (okRight : parse context limit right = .ok rightTree) :
    parse context (limit + 2) ("(" ++ left ++ ")" ++ op.symbol.toString ++ "(" ++ right ++ ")") =
      .ok (.binary op (leftTree.shift 1) (rightTree.shift (left.length + 4))
        (left.length + 2)) := by
  have start : Cursor.start ("(" ++ left ++ ")" ++ op.symbol.toString ++ "(" ++ right ++ ")") =
      ⟨'(' :: (left.toList ++ ')' :: op.symbol :: '(' :: (right.toList ++ [')'])), 0⟩ := by
    simp [Cursor.start]
  have outer := reads_of_parse okLeft (0 + 1) (c := ')') rfl
    (op.symbol :: '(' :: (right.toList ++ [')']))
  have inner := reads_of_parse okRight (left.length + 3 + 1) (c := ')') rfl []
  have place : 0 + 1 + left.length + 1 = left.length + 2 := by omega
  refine parse_of_reads (left.length + 3 + 1 + right.length + 1) ?_
  rw [start]
  exact (place ▸ outer.group).binary inner.group

/-- A text that is read is read in parentheses behind a sign. -/
lemma parse_sign (sign : Sign) (ok : parse context limit text = .ok tree) :
    parse context (limit + 2) (sign.symbol.toString ++ "(" ++ text ++ ")") =
      .ok (.unary sign (tree.shift 2) 0) := by
  have start : Cursor.start (sign.symbol.toString ++ "(" ++ text ++ ")") =
      ⟨sign.symbol :: '(' :: (text.toList ++ [')']), 0⟩ := by
    simp [Cursor.start]
  have inner := reads_of_parse ok (0 + 1 + 1) (c := ')') rfl []
  refine parse_of_reads (0 + 1 + 1 + text.length + 1) ?_
  rw [start]
  exact inner.group.unary

/-- Texts that are read are read as the arguments of a function. -/
lemma parse_call {builtin : Builtin} {parts : List (String × Expr)} (isName : IsName name)
    (found : context.find? name = some builtin) (arity : builtin.arity = parts.length)
    (each : ∀ part ∈ parts, parse context limit part.1 = .ok part.2) :
    parse context (limit + 2) (name ++ "(" ++ ",".intercalate (parts.map Prod.fst) ++ ")") =
      .ok (.call name (placed (name.length + 1) parts) 0) := by
  have start : Cursor.start (name ++ "(" ++ ",".intercalate (parts.map Prod.fst) ++ ")") =
      ⟨name.toList ++ '(' :: ((",".intercalate (parts.map Prod.fst)).toList ++ [')']), 0⟩ := by
    simp [Cursor.start]
  obtain ⟨stop, inner⟩ := reads_arguments each (0 + name.length + 1) []
  have called := inner.call isName found (arity.trans (length_placed _ _).symm)
  rw [Nat.zero_add] at called
  refine parse_of_reads (stop + 1) ?_
  rw [start]
  exact called.sum.mono (Nat.le_succ _)

end Texts

end Expr

namespace Evaluator
variable (evaluator : Evaluator)

/-- The evaluator with two levels more. -/
def deeper : Evaluator :=
  { evaluator with limits := { evaluator.limits with maxDepth := evaluator.limits.maxDepth + 2 } }

/-- More levels do not change the functions. -/
lemma deeper_context : evaluator.deeper.context = evaluator.context := rfl

/-- The values of texts that are written from an offset on with one character between them. -/
def evaluateFrom : Nat → List String → Except Error (List Float)
  | _, [] => .ok []
  | offset, text :: texts => do
    let value ← (evaluator.evaluate text).mapError (Located.shift · offset)
    let values ← evaluateFrom (offset + text.length + 1) texts
    .ok (value :: values)

variable {evaluator}

/-- A text that is read has the value of its expression. -/
lemma evaluate_of_parse {text tree} (ok : evaluator.parse text = .ok tree) :
    evaluator.evaluate text = (tree.eval evaluator.context).mapError (Located.map .eval) := by
  rw [evaluate, ok, ok_bind]

/-- An expression has the same value further to the right, and its error is moved. -/
lemma eval_shift_of_parse {text tree} (ok : evaluator.parse text = .ok tree) (offset : Nat) :
    ((tree.shift offset).eval evaluator.context).mapError (Located.map Fault.eval) =
      (evaluator.evaluate text).mapError (Located.shift · offset) := by
  rw [evaluate_of_parse ok, Expr.eval_relocate]
  cases tree.eval evaluator.context <;> rfl

/-- The values of the arguments are those of their texts. -/
lemma evalAll_placed {parts : List (String × Expr)}
    (each : ∀ part ∈ parts, evaluator.parse part.1 = .ok part.2) (offset : Nat) :
    (Expr.evalAll evaluator.context (Expr.placed offset parts)).mapError (Located.map Fault.eval) =
      evaluator.evaluateFrom offset (parts.map Prod.fst) := by
  induction parts generalizing offset with
  | nil => rfl
  | cons part parts ih =>
    obtain ⟨first, others⟩ := List.forall_mem_cons.1 each
    obtain ⟨text, tree⟩ := part
    rw [Expr.placed, Expr.evalAll, mapError_bind, eval_shift_of_parse first, List.map_cons,
      evaluateFrom]
    refine bind_congr fun value => ?_
    rw [mapError_bind, ih others]
    rfl

/-- Texts that can be read may be put together: in parentheses, with an operator or behind a sign,
and with commas as the arguments of a function. With two levels more the whole is read as the
expressions of its parts, moved to where the parts are, and its value is found from theirs; the
first error among the parts is its error, moved likewise. -/
theorem composes (evaluator : Evaluator) :
    (∀ text tree, evaluator.parse text = .ok tree →
      let whole := "(" ++ text ++ ")"
      evaluator.deeper.parse whole = .ok (tree.shift 1) ∧
      evaluator.deeper.evaluate whole =
        (evaluator.evaluate text).mapError (Located.shift · 1)) ∧
    (∀ (op : Operator) left leftTree right rightTree,
      evaluator.parse left = .ok leftTree → evaluator.parse right = .ok rightTree →
      let whole := "(" ++ left ++ ")" ++ op.symbol.toString ++ "(" ++ right ++ ")"
      evaluator.deeper.parse whole =
        .ok (.binary op (leftTree.shift 1) (rightTree.shift (left.length + 4))
          (left.length + 2)) ∧
      evaluator.deeper.evaluate whole = do
        let x ← (evaluator.evaluate left).mapError (Located.shift · 1)
        let y ← (evaluator.evaluate right).mapError (Located.shift · (left.length + 4))
        (op.apply x y).mapError fun fault => ⟨.eval fault, left.length + 2⟩) ∧
    (∀ (sign : Sign) text tree, evaluator.parse text = .ok tree →
      let whole := sign.symbol.toString ++ "(" ++ text ++ ")"
      evaluator.deeper.parse whole = .ok (.unary sign (tree.shift 2) 0) ∧
      evaluator.deeper.evaluate whole =
        ((evaluator.evaluate text).mapError (Located.shift · 2)).map sign.apply) ∧
    (∀ name builtin (parts : List (String × Expr)), Expr.IsName name →
      evaluator.context.find? name = some builtin → builtin.arity = parts.length →
      (∀ part ∈ parts, evaluator.parse part.1 = .ok part.2) →
      let whole := name ++ "(" ++ ",".intercalate (parts.map Prod.fst) ++ ")"
      evaluator.deeper.parse whole = .ok (.call name (Expr.placed (name.length + 1) parts) 0) ∧
      evaluator.deeper.evaluate whole = do
        let values ← evaluator.evaluateFrom (name.length + 1) (parts.map Prod.fst)
        (builtin.run values).mapError fun fault => ⟨.eval (.ofFunction name fault), 0⟩) := by
  refine ⟨?group, ?binary, ?sign, ?call⟩
  case group =>
    intro text tree ok whole
    have parsed : evaluator.deeper.parse whole = _ := Expr.parse_group ok
    rw [evaluate_of_parse parsed]
    exact ⟨parsed, eval_shift_of_parse ok 1⟩
  case binary =>
    intro op left leftTree right rightTree okLeft okRight whole
    have parsed : evaluator.deeper.parse whole = _ := Expr.parse_binary op okLeft okRight
    refine ⟨parsed, ?_⟩
    rw [evaluate_of_parse parsed, deeper_context, Expr.eval, mapError_bind,
      eval_shift_of_parse okLeft]
    refine bind_congr fun x => ?_
    rw [mapError_bind, eval_shift_of_parse okRight]
    refine bind_congr fun y => ?_
    cases op.apply x y <;> rfl
  case sign =>
    intro sign text tree ok whole
    have parsed : evaluator.deeper.parse whole = _ := Expr.parse_sign sign ok
    refine ⟨parsed, ?_⟩
    rw [evaluate_of_parse parsed, deeper_context, Expr.eval, mapError_bind,
      eval_shift_of_parse ok, map_eq_bind]
    rfl
  case call =>
    intro name builtin parts isName found arity each whole
    have parsed : evaluator.deeper.parse whole = _ := Expr.parse_call isName found arity each
    refine ⟨parsed, ?_⟩
    rw [evaluate_of_parse parsed, deeper_context, Expr.eval, found]
    simp only
    rw [mapError_bind, evalAll_placed each]
    refine bind_congr fun values => ?_
    cases builtin.run values <;> rfl

/-- A quotient of two numbers that take one level each. -/
theorem composes_of_quotient :
    let evaluator : Evaluator := ⟨Standard.context, ⟨1, 0⟩⟩
    ∃ one zero, evaluator.parse "1" = .ok one ∧ evaluator.parse "0" = .ok zero ∧
      evaluator.deeper.parse "(1)/(0)" = .ok (.binary .divide (one.shift 1) (zero.shift 5) 3) ∧
      evaluator.deeper.evaluate "(1)/(0)" = (do
        let x ← (evaluator.evaluate "1").mapError (Located.shift · 1)
        let y ← (evaluator.evaluate "0").mapError (Located.shift · 5)
        (Operator.divide.apply x y).mapError fun fault => ⟨.eval fault, 3⟩) := by
  intro evaluator
  obtain ⟨one, okOne⟩ : ∃ tree, evaluator.parse "1" = .ok tree :=
    exists_of_isOk (by decide +kernel)
  obtain ⟨zero, okZero⟩ : ∃ tree, evaluator.parse "0" = .ok tree :=
    exists_of_isOk (by decide +kernel)
  obtain ⟨-, binary, -⟩ := composes evaluator
  exact ⟨one, zero, okOne, okZero, binary .divide "1" one "0" zero okOne okZero⟩

end Evaluator
end ArithExpr
