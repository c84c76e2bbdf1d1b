import ArithExpr.Proofs.Expr.Places
import ArithExpr.Proofs.Grammar.Legibility

/-!
# Reading what was written

The text of an expression has parentheses around every operator, so every part of it is a number, a
call or an expression in parentheses, and reads back as the part that it was written from. Only the
places are those in the text. Main statement: the parser reads the text of a legible expression as
that expression (`Expr.parse_text`).
-/

namespace ArithExpr

namespace Cursor
variable {rest : List Char} {position : Nat}

/-- The tokens from a place on are those from where the blanks before them end. -/
lemma tokens_of_skipBlanks {cursor cursor' : Cursor}
    (same : cursor.skipBlanks = cursor'.skipBlanks) : cursor.tokens = cursor'.tokens := by
  have found : cursor.next = cursor'.next := by rw [next, next, same]
  rcases next : cursor'.next with ⟨error | ⟨_ | lexeme, position⟩, stop⟩
  · rw [tokens_of_error (found.trans next), tokens_of_error next]
  · rw [tokens_of_end (found.trans next), tokens_of_end next]
  · rw [tokens_of_word (found.trans next), tokens_of_word next]

/-- A space is no token. -/
lemma tokens_space : tokens ⟨' ' :: rest, position⟩ = tokens ⟨rest, position + 1⟩ :=
  tokens_of_skipBlanks (skipBlanks_append (List.forall_mem_singleton.2 (by decide)) rest position)

/-- A word in front of what does not go on with it is the first token. -/
lemma tokens_of_spells {text lexeme goesOn} (spells : Cut.Spells text lexeme goesOn)
    (ends : Cut.Ends goesOn rest) :
    tokens ⟨text ++ rest, position⟩ =
      ⟨⟨lexeme, position⟩ :: (tokens ⟨rest, position + text.length⟩).list,
        (tokens ⟨rest, position + text.length⟩).ending⟩ :=
  tokens_of_word (next_of_spells (skipBlanks_of_spells spells _ _) spells ends)

/-- A symbol is the first token whatever stands behind it. -/
lemma tokens_symbol {c lexeme} (symbol : Lexeme.ofSymbol? c = some lexeme) :
    tokens ⟨c :: rest, position⟩ =
      ⟨⟨lexeme, position⟩ :: (tokens ⟨rest, position + 1⟩).list,
        (tokens ⟨rest, position + 1⟩).ending⟩ :=
  tokens_of_word (next_symbol symbol rest position)

/-- A rule reads a value at a place, and goes on at another one. -/
structure Derives (rule : Rule) (value : rule.Value) (cursor stop : Cursor) : Prop where
  derived : Nonempty (Derivation rule value cursor.tokens.list stop.tokens.list)
  ending : cursor.tokens.ending = stop.tokens.ending

end Cursor

namespace Derivation
variable {op : Operator} {tree left right : Expr} {tokens middle rest : List Token} {position : Nat}

/-- What needs no parentheses is an operand of a run. -/
def ofPrimary (d : Derivation .primary tree tokens rest) :
    (level : Level) → Derivation (.operand level) tree tokens rest
  | .sum => .term (.chain (.factor (.base (.unsigned d))) .done)
  | .product => .factor (.base (.unsigned d))

/-- What needs no parentheses is a sum. -/
def sum (d : Derivation .primary tree tokens rest) : Derivation (.chain .sum) tree tokens rest :=
  .chain (d.ofPrimary .sum) .done

/-- An operator between two operands that need no parentheses. -/
def binary (l : Derivation .primary left tokens (⟨.operator op, position⟩ :: middle))
    (r : Derivation .primary right middle rest) :
    Derivation (.chain .sum) (.binary op left right position) tokens rest :=
  match op with
  | .add => .chain (l.ofPrimary .sum) (.link (by decide) (r.ofPrimary .sum) .done)
  | .subtract => .chain (l.ofPrimary .sum) (.link (by decide) (r.ofPrimary .sum) .done)
  | .multiply =>
    .chain (.term (.chain (l.ofPrimary .product) (.link (by decide) (r.ofPrimary .product) .done)))
      .done
  | .divide =>
    .chain (.term (.chain (l.ofPrimary .product) (.link (by decide) (r.ofPrimary .product) .done)))
      .done
  | .power =>
    .chain (.term (.chain (.factor (.power (.unsigned l) (.base (.unsigned r)))) .done)) .done

end Derivation

namespace Expr

/-- Wherever an expression is written, and whatever is written behind it, it reads back, but for
places. A digit behind it might go on with a number at its end. -/
def ReadsBack (expr : Expr) : Prop :=
  ∀ rest position, Cut.Ends Cut.GoesOnNumeral rest →
    ∃ (tree : Expr) (stop : Nat), tree.unplaced = expr.unplaced ∧
      Cursor.Derives .primary tree ⟨expr.write rest, position⟩ ⟨rest, stop⟩

namespace ReadsBack
variable {value : Float} {position : Nat} {args : List Expr}

/-- A finite number without a sign is printed so that it is read back. -/
lemma number (finite : value.isFinite = true) (unsigned : Binary64.isNegative value = false) :
    ReadsBack (.number value position) := by
  intro rest start ends
  have spells := Cut.spells_numberText finite unsigned
  refine ⟨.number value start, start + (numberText value).toList.length, rfl, ⟨⟨?_⟩, ?_⟩⟩
  all_goals rw [write, Cursor.tokens_of_spells spells ends]
  exact .number

/-- An expression behind a sign is read back if the expression is. -/
lemma unary {sign operand} (inner : ReadsBack operand) :
    ReadsBack (.unary sign operand position) := by
  intro rest start ends
  have symbol : Lexeme.ofSymbol? sign.symbol = some (.operator sign.operator) := by
    cases sign <;> rfl
  obtain ⟨tree, stop, same, ⟨d⟩, ending⟩ :=
    inner (')' :: rest) (start + 2) (Cut.ends_cons.2 (by decide))
  rw [Cursor.tokens_symbol rfl] at d ending
  refine ⟨.unary sign tree (start + 1), stop + 1, ?_, ⟨⟨?_⟩, ?_⟩⟩
  · simp only [unplaced, relocate] at same ⊢
    rw [same]
  all_goals rw [write, Cursor.tokens_symbol rfl, Cursor.tokens_symbol symbol]
  · exact .group (.chain (.term (.chain (.factor (.base (.sign rfl (.unsigned d)))) .done)) .done)
  · exact ending

/-- Two expressions with an operator between them are read back if each of them is. -/
lemma binary {op left right} (outer : ReadsBack left) (inner : ReadsBack right) :
    ReadsBack (.binary op left right position) := by
  intro rest start ends
  have symbol : Lexeme.ofSymbol? op.symbol = some (.operator op) := by
    cases op <;> rfl
  -- a space behind the left operand and a parenthesis behind the right one go on with no numeral
  obtain ⟨leftTree, middle, leftSame, ⟨l⟩, leftEnding⟩ :=
    outer (' ' :: op.symbol :: ' ' :: right.write (')' :: rest)) (start + 1)
      (Cut.ends_cons.2 (by decide))
  obtain ⟨rightTree, stop, rightSame, ⟨r⟩, rightEnding⟩ :=
    inner (')' :: rest) (middle + 3) (Cut.ends_cons.2 (by decide))
  rw [Cursor.tokens_space, Cursor.tokens_symbol symbol, Cursor.tokens_space] at l leftEnding
  rw [Cursor.tokens_symbol rfl] at r rightEnding
  refine ⟨.binary op leftTree rightTree (middle + 1), stop + 1, ?_, ⟨⟨?_⟩, ?_⟩⟩
  · simp only [unplaced, relocate] at leftSame rightSame ⊢
    rw [leftSame, rightSame]
  all_goals rw [write, Cursor.tokens_symbol rfl]
  · exact .group (l.binary r)
  · exact leftEnding.trans rightEnding

/-- A comma or a parenthesis stands behind an argument. -/
lemma ends_writeMoreArgs (args : List Expr) (rest : List Char) :
    Cut.Ends Cut.GoesOnNumeral (writeMoreArgs args (')' :: rest)) := by
  cases args <;> exact Cut.ends_cons.2 (by decide)

/-- Further arguments read back up to the parenthesis behind them. -/
lemma moreArgs (each : ∀ arg ∈ args, ReadsBack arg) (rest : List Char) (start : Nat) :
    ∃ trees stop, trees.map unplaced = args.map unplaced ∧
      Cursor.Derives .moreArguments trees ⟨writeMoreArgs args (')' :: rest), start⟩
        ⟨')' :: rest, stop⟩ := by
  induction args generalizing start with
  | nil => exact ⟨[], start, rfl, ⟨⟨.lastArgument⟩, rfl⟩⟩
  | cons arg args ih =>
    obtain ⟨first, others⟩ := List.forall_mem_cons.1 each
    obtain ⟨tree, middle, same, ⟨d⟩, ending⟩ := first _ (start + 2) (ends_writeMoreArgs args rest)
    obtain ⟨trees, stop, sames, ⟨ds⟩, endings⟩ := ih others middle
    refine ⟨tree :: trees, stop, ?_, ⟨⟨?_⟩, ?_⟩⟩
    · rw [List.map_cons, List.map_cons, same, sames]
    all_goals rw [writeMoreArgs, Cursor.tokens_symbol rfl, Cursor.tokens_space]
    · exact .nextArgument d.sum ds
    · exact ending.trans endings

/-- The arguments of a call are read back if each of them is. -/
lemma arguments (each : ∀ arg ∈ args, ReadsBack arg) (rest : List Char) (start : Nat) :
    ∃ trees stop, trees.map unplaced = args.map unplaced ∧
      Cursor.Derives .arguments trees ⟨writeArgs args (')' :: rest), start⟩
        ⟨')' :: rest, stop⟩ := by
  cases args with
  | nil => exact ⟨[], start, rfl, ⟨⟨.noArguments⟩, rfl⟩⟩
  | cons arg args =>
    obtain ⟨first, others⟩ := List.forall_mem_cons.1 each
    obtain ⟨tree, middle, same, ⟨d⟩, ending⟩ := first _ start (ends_writeMoreArgs args rest)
    obtain ⟨trees, stop, sames, ⟨ds⟩, endings⟩ := moreArgs others rest middle
    refine ⟨tree :: trees, stop, ?_, ⟨⟨.arguments d.sum ds⟩, ending.trans endings⟩⟩
    rw [List.map_cons, List.map_cons, same, sames]

/-- A call of a name made of letters is read back if its arguments are. -/
lemma call {name} (nonempty : name.toList ≠ [])
    (letters : ∀ c ∈ name.toList, Text.isAlphabetic c = true)
    (each : ∀ arg ∈ args, ReadsBack arg) : ReadsBack (.call name args position) := by
  intro rest start ends
  have spells := Cut.Spells.name nonempty letters
  rw [String.ofList_toList] at spells
  -- the parenthesis behind the name goes on with no name
  obtain ⟨trees, stop, same, ⟨d⟩, ending⟩ :=
    arguments each rest (start + name.toList.length + 1)
  rw [Cursor.tokens_symbol rfl] at d ending
  refine ⟨.call name trees start, stop + 1, ?_, ⟨⟨?_⟩, ?_⟩⟩
  · simp only [unplaced, relocate, relocateAll_eq_map]
    exact congrArg (Expr.call name · 0) same
  all_goals
    rw [write, Cursor.tokens_of_spells spells (Cut.ends_cons.2 (by decide)),
      Cursor.tokens_symbol rfl]
  · exact .named (.call d)
  · exact ending

end ReadsBack

/-- A legible expression reads back. -/
theorem Legible.readsBack {expr : Expr} (legible : expr.Legible) : ReadsBack expr := by
  induction legible with
  | number given => exact .number given.1 given.2
  | unary _ ih => exact .unary ih
  | binary _ _ ihLeft ihRight => exact .binary ihLeft ihRight
  | call given _ ih => exact .call given.1 given.2 ih

/-- A legible expression whose calls are right is derived from its text, but for places. -/
lemma exists_derivedFrom_text {context} {expr : Expr} (checked : expr.check context = .ok ())
    (legible : expr.Legible) :
    ∃ tree : Expr, tree.unplaced = expr.unplaced ∧ tree.DerivedFrom context expr.text := by
  obtain ⟨tree, stop, same, ⟨d⟩, ending⟩ := legible.readsBack [] 0 (Cut.ends_nil _)
  have whole : Tokens.ofText expr.text = Cursor.tokens ⟨expr.write [], 0⟩ := by
    rw [Tokens.ofText, Cursor.start, text, String.toList_ofList]
  have ends : Cursor.tokens ⟨[], stop⟩ = ⟨[], .finish stop⟩ := Cursor.tokens_of_end rfl
  rw [ends] at d ending
  have well := WellCalled.of_check (check_of_unplaced context same checked)
  refine ⟨tree, same, fun error fault => ?_, ⟨?_⟩, well⟩
  · rw [whole, ending] at fault
    cases fault
  · rw [whole]
    exact d.sum

/-- The text of a legible expression whose calls are right is read as that expression, given more
levels than characters: only places change, and with them neither the text nor the value. Every
expression that is read is such a one unless a number in it overflows. -/
theorem parse_text (context : Context) :
    (∀ (expr : Expr) limit, expr.check context = .ok () → expr.Legible →
      expr.text.length < limit →
      ∃ tree, parse context limit expr.text = .ok tree ∧ tree.unplaced = expr.unplaced ∧
        tree.text = expr.text ∧
        (tree.checkedEval context).mapError Located.value =
          (expr.checkedEval context).mapError Located.value) ∧
    (∀ text limit expr, parse context limit text = .ok expr → expr.Finite →
      expr.check context = .ok () ∧ expr.Legible) := by
  refine ⟨fun expr limit checked legible room => ?_, fun text limit expr ok finite => ?_⟩
  · obtain ⟨tree, same, derived⟩ := exists_derivedFrom_text checked legible
    exact ⟨tree, derived.parse room, same, text_of_unplaced same,
      checkedEval_of_unplaced context same⟩
  · exact ⟨(DerivedFrom.of_parse ok).called.check, legible_of_parse ok finite⟩

/-- A quotient of a negated number and a call, put together with any places, reads back. -/
theorem parse_text_of_quotient :
    let context := Context.empty.register "half" (Builtin.unary fun x => x / 2)
    let half := Expr.call "half" [.number 2 5] 0
    let expr := Expr.binary .divide (.unary .negate (.number 1 3) 4) half 0
    ∃ tree, parse context (expr.text.length + 1) expr.text = .ok tree ∧
      tree.unplaced = expr.unplaced := by
  intro context half expr
  have found : context.find? "half" = some (Builtin.unary fun x => x / 2) := by
    simp [context, Context.find?_register]
  have checked : expr.check context = .ok () :=
    WellCalled.check (.binary (.unary .number)
      (.call found rfl (List.forall_mem_singleton.2 .number)))
  have letters : ∀ c ∈ "half".toList, Text.isAlphabetic c = true := List.all_eq_true.1 rfl
  have legible : expr.Legible :=
    .binary (.unary (.number (by decide))) (.call ⟨by decide, letters⟩
      (List.forall_mem_singleton.2 (.number (by decide))))
  obtain ⟨tree, ok, same, -⟩ := (parse_text context).1 expr _ checked legible (Nat.lt_succ_self _)
  exact ⟨tree, ok, same⟩

end Expr
end ArithExpr
