import ArithExpr.Proofs.Grammar.Completeness
import ArithExpr.Proofs.Token.Scanning

/-!
# A text stands for what the grammar derives from it

An expression is derived from a text if the lexer finds no error in it, the grammar derives the
expression from all its tokens, and the calls in it are right. Main statement: with more levels than
the text has characters the parser finds exactly the expression derived from the text, with fewer
levels it finds no other (`Expr.parse_eq_ok_iff_derivedFrom`).
-/

namespace ArithExpr
namespace Parser

/-- Makes sure that nothing stands behind an expression. -/
def ended (expr : Expr) : List Token → Except Error Expr
  | [] => .ok expr
  | ⟨.closeParen, position⟩ :: _ => fail .unmatchedParenthesis position
  | token :: _ => fail (.trailingInput token.value.text) token.position

/-- The whole of some tokens is a sum with nothing behind it. -/
lemma whole_cons (p : Parser) (token : Token) (rest : List Token) :
    p.whole (token :: rest) =
      (p.read (.chain .sum) p.limit (token :: rest) >>= fun all => ended all.1 all.2) := by
  simp only [whole, reach, ok_bind, List.isEmpty_cons, Bool.false_eq_true, if_false, read,
    map_eq_bind, bind_assoc, Parsed.out]
  refine bind_congr fun all => ?_
  split
  next behind => rw [behind, ended]
  next position tail behind => rw [behind, ended]
  next token tail other behind =>
    rw [behind, ended]
    exact other

/-- Without tokens there is no expression. -/
lemma whole_nil_ne_ok (p : Parser) (expr : Expr) : p.whole [] ≠ .ok expr := by
  rw [whole]
  cases p.reach [] with
  | error error => nofun
  | ok _ => nofun

/-- An expression that was read is the whole if nothing is left behind it. -/
lemma ended_eq_ok_iff {expr expr' : Expr} {rest} :
    ended expr rest = .ok expr' ↔ expr = expr' ∧ rest = [] := by
  unfold ended
  split <;> simp [fail]

/-- An expression that is found is derived from all tokens, and the lexer found no error. -/
theorem whole_sound {p : Parser} {tokens expr} (ok : p.whole tokens = .ok expr) :
    p.Reads (.chain .sum) p.limit expr tokens [] := by
  cases tokens with
  | nil => exact absurd ok (whole_nil_ne_ok p expr)
  | cons token rest =>
    rw [whole_cons, bind_eq_ok_iff] at ok
    obtain ⟨⟨found, behind⟩, okFound, okEnded⟩ := ok
    obtain ⟨rfl, rfl⟩ := ended_eq_ok_iff.1 okEnded
    exact read_sound trivial rfl okFound

/-- What is derived within the limit is found, and it is the whole if nothing stands behind it. -/
theorem whole_eq_ended {p : Parser} {position} (finish : p.ending = .finish position)
    {tokens rest expr} (d : Derivation (.chain .sum) expr tokens rest) (cost : d.cost ≤ p.limit)
    (called : expr.WellCalled p.context) (stops : (Rule.chain .sum).Stops rest) :
    p.whole tokens = ended expr rest := by
  cases tokens with
  | nil =>
    -- an expression takes a level and with it a token
    have le := d.cost_le
    cases d with
    | chain first links =>
      have pos := first.operand_cost_pos
      simp only [Derivation.cost, List.length_nil] at le
      omega
  | cons token tail =>
    rw [whole_cons, read_complete finish d cost (List.forall_mem_singleton.2 called) stops trivial]
    rfl

/-- What is derived from all tokens within the limit is found. -/
theorem whole_complete {p : Parser} {position} (finish : p.ending = .finish position)
    {tokens expr} (d : Derivation (.chain .sum) expr tokens []) (cost : d.cost ≤ p.limit)
    (called : expr.WellCalled p.context) : p.whole tokens = .ok expr :=
  whole_eq_ended finish d cost called trivial

end Parser

namespace Expr

/-- The lexer finds no error in a text, the grammar derives an expression from all its tokens, and
every call in the expression is right. -/
structure DerivedFrom (context : Context) (text : String) (expr : Expr) : Prop where
  lexed : ∀ error, (Tokens.ofText text).ending ≠ .fault error
  derived : Nonempty (Derivation (.chain .sum) expr (Tokens.ofText text).list [])
  called : expr.WellCalled context

/-- An expression that is found is derived from the text, whatever the limit. -/
lemma DerivedFrom.of_parse {context limit text expr} (ok : parse context limit text = .ok expr) :
    expr.DerivedFrom context text := by
  obtain ⟨⟨d, _⟩, called, -, reached⟩ := Parser.whole_sound ok
  refine ⟨fun error fault => ?_, ⟨d⟩, called _ List.mem_cons_self⟩
  simp [Parser.reach, fault] at reached

/-- The tokens of a text end where the text does if an expression is derived from them. -/
lemma DerivedFrom.exists_finish {context text expr} (derived : DerivedFrom context text expr) :
    ∃ stop, (Tokens.ofText text).ending = .finish stop := by
  cases ending : (Tokens.ofText text).ending with
  | finish stop => exact ⟨stop, rfl⟩
  | fault error => exact absurd ending (derived.lexed error)

/-- An expression derived from a text is found if there are more levels than characters. -/
lemma DerivedFrom.parse {context limit text expr} (derived : DerivedFrom context text expr)
    (room : text.length < limit) : Expr.parse context limit text = .ok expr := by
  obtain ⟨stop, finish⟩ := derived.exists_finish
  obtain ⟨-, ⟨d⟩, called⟩ := derived
  have cost := d.cost_le
  have tokens := Tokens.length_ofText_le text
  exact Parser.whole_complete finish d (by simp only; omega) called

/-- With more levels than characters the parser finds exactly what is derived from the text, with
fewer levels it finds nothing else, and tokens have one expression at most. -/
theorem parse_eq_ok_iff_derivedFrom (context : Context) :
    (∀ text limit expr, text.length < limit →
      (parse context limit text = .ok expr ↔ expr.DerivedFrom context text)) ∧
    (∀ text limit expr, parse context limit text = .ok expr → expr.DerivedFrom context text) ∧
    (∀ tokens expr expr', Nonempty (Derivation (.chain .sum) expr tokens []) →
      Nonempty (Derivation (.chain .sum) expr' tokens []) → expr = expr') := by
  refine ⟨fun text limit expr room => ⟨.of_parse, fun derived => derived.parse room⟩,
    fun text limit expr => .of_parse, ?_⟩
  intro tokens expr expr' ⟨d⟩ ⟨d'⟩
  exact (d.unique d' trivial trivial trivial trivial).1

end Expr
end ArithExpr
