import ArithExpr.Proofs.Decimal.Spelling
import ArithExpr.Proofs.Grammar.Exactness

/-!
# What is read is legible

The numbers and names of an expression are those of the tokens that it is derived from, and tokens
are words. So an expression that was read has no number with a sign and no name but runs of letters.
Main statement: `Expr.legible_of_parse`.
-/

namespace ArithExpr

/-- What a rule goes on with has no other numbers and names than those given. -/
def Rule.Given (numbers : Float → Prop) (names : String → Prop) : Rule → Prop
  | .links _ left => left.Built numbers names
  | .call name _ => names name
  | _ => True

namespace Derivation
variable {numbers : Float → Prop} {names : String → Prop}

/-- The tokens that a derivation leaves are the last ones. -/
lemma suffix {rule : Rule} {value : rule.Value} {tokens rest}
    (d : Derivation rule value tokens rest) : rest <:+ tokens := by
  induction d with
  | chain _ _ ihFirst ihLinks => exact ihLinks.trans ihFirst
  | term _ ih => exact ih
  | factor _ ih => exact ih
  | done => exact List.suffix_refl _
  | link _ _ _ ihRight ihMore => exact (ihMore.trans ihRight).trans (List.suffix_cons _ _)
  | base _ ih => exact ih
  | power _ _ ihBase ihExponent =>
    exact ihExponent.trans ((List.suffix_cons _ _).trans ihBase)
  | sign _ _ ih => exact ih.trans (List.suffix_cons _ _)
  | unsigned _ ih => exact ih
  | number => exact List.suffix_cons _ _
  | group _ ih => exact (List.suffix_cons _ _).trans (ih.trans (List.suffix_cons _ _))
  | named _ ih => exact ih.trans (List.suffix_cons _ _)
  | call _ ih => exact (List.suffix_cons _ _).trans (ih.trans (List.suffix_cons _ _))
  | noArguments => exact List.suffix_refl _
  | arguments _ _ ihFirst ihMore => exact ihMore.trans ihFirst
  | lastArgument => exact List.suffix_refl _
  | nextArgument _ _ ihArg ihMore => exact (ihMore.trans ihArg).trans (List.suffix_cons _ _)

/-- The numbers and names of what is read are those of the tokens and of what the rule goes on
with. -/
theorem built {rule : Rule} {value : rule.Value} {tokens rest}
    (d : Derivation rule value tokens rest)
    (given : ∀ token ∈ tokens, token.value.Given numbers names)
    (begun : rule.Given numbers names) :
    ∀ tree ∈ rule.trees value, tree.Built numbers names := by
  induction d with
  | chain first _ ihFirst ihLinks =>
    exact ihLinks (fun token mem => given token (first.suffix.mem mem))
      (ihFirst given trivial _ List.mem_cons_self)
  | term _ ih => exact ih given trivial
  | factor _ ih => exact ih given trivial
  | done => exact List.forall_mem_singleton.2 begun
  | link _ right _ ihRight ihMore =>
    obtain ⟨-, given⟩ := List.forall_mem_cons.1 given
    exact ihMore (fun token mem => given token (right.suffix.mem mem))
      (.binary begun (ihRight given trivial _ List.mem_cons_self))
  | base _ ih => exact ih given trivial
  | power left _ ihBase ihExponent =>
    have behind := fun token mem => given token (left.suffix.mem mem)
    refine List.forall_mem_singleton.2 (.binary (ihBase given trivial _ List.mem_cons_self) ?_)
    exact ihExponent (List.forall_mem_cons.1 behind).2 trivial _ List.mem_cons_self
  | sign _ _ ih =>
    exact List.forall_mem_singleton.2
      (.unary (ih (List.forall_mem_cons.1 given).2 trivial _ List.mem_cons_self))
  | unsigned _ ih => exact ih given trivial
  | number => exact List.forall_mem_singleton.2 (.number (List.forall_mem_cons.1 given).1)
  | group _ ih => exact ih (List.forall_mem_cons.1 given).2 trivial
  | named _ ih =>
    obtain ⟨name, given⟩ := List.forall_mem_cons.1 given
    exact ih given name
  | call _ ih =>
    exact List.forall_mem_singleton.2 (.call begun (ih (List.forall_mem_cons.1 given).2 trivial))
  | noArguments => exact List.forall_mem_nil _
  | arguments first _ ihFirst ihMore =>
    refine List.forall_mem_cons.2 ⟨ihFirst given trivial _ List.mem_cons_self, ?_⟩
    exact ihMore (fun token mem => given token (first.suffix.mem mem)) trivial
  | lastArgument => exact List.forall_mem_nil _
  | nextArgument arg _ ihArg ihMore =>
    obtain ⟨-, given⟩ := List.forall_mem_cons.1 given
    refine List.forall_mem_cons.2 ⟨ihArg given trivial _ List.mem_cons_self, ?_⟩
    exact ihMore (fun token mem => given token (arg.suffix.mem mem)) trivial

end Derivation

/-- The tokens of a text are words. -/
lemma Cursor.exists_spells_of_mem_tokens {cursor : Cursor} {token}
    (mem : token ∈ cursor.tokens.list) : ∃ text goesOn, Cut.Spells text token.value goesOn := by
  replace mem := finds_of_mem_tokens mem
  induction mem with
  | here found =>
    obtain ⟨text, goesOn, -, spells, -⟩ := exists_spells_of_next found
    exact ⟨text, goesOn, spells⟩
  | later _ _ ih => exact ih

namespace Expr

/-- What is read without a number that overflows is legible. -/
theorem legible_of_parse {context limit text expr} (ok : parse context limit text = .ok expr)
    (finite : expr.Finite) : expr.Legible := by
  obtain ⟨-, ⟨d⟩, -⟩ := DerivedFrom.of_parse ok
  have built : expr.Built (Binary64.isNegative · = false) IsName := by
    refine d.built (fun token mem => ?_) trivial expr List.mem_cons_self
    obtain ⟨_, _, spells⟩ := Cursor.exists_spells_of_mem_tokens mem
    exact spells.given
  exact (Built.and finite built).mono (fun _ both => both) fun _ both => both.2

end Expr
end ArithExpr
