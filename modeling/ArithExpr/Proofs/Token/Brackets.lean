import ArithExpr.Token.Basic
import Mathlib.Data.List.Nodup

/-!
# Parentheses and their partners

Going through tokens from left to right, an opening parenthesis is one more that is open, and a
closing one closes the last one that is (`nesting`). Tokens are balanced if no parenthesis closes
nothing and none is left open. An opening and a closing parenthesis are partners if what stands
between them is balanced.

Main statements: a closing parenthesis behind balanced tokens has no partner, nor has an opening one
in front of balanced tokens (`ClosesNothing.unpaired`, `LastOpen.unpaired`); every opening
parenthesis behind the latter has one (`LastOpen.exists_partners`).
-/

namespace ArithExpr

/-- The number of parentheses open behind a word, unless it closes one where none is open. -/
def Lexeme.nest : Lexeme → Nat → Option Nat
  | .openParen, opened => some (opened + 1)
  | .closeParen, 0 => none
  | .closeParen, opened + 1 => some opened
  | _, opened => some opened

/-- The number of parentheses open behind some tokens, unless one of these closes one where none is
open. -/
def nesting (opened : Nat) (tokens : List Token) : Option Nat :=
  tokens.foldlM (fun opened token => token.value.nest opened) opened

/-- Every parenthesis is opened and closed again. -/
def Balanced (tokens : List Token) : Prop :=
  nesting 0 tokens = some 0

/-- The parentheses at two offsets open and close what stands between them. -/
def Partners (tokens : List Token) (opened closed : Nat) : Prop :=
  ∃ before inner after, Balanced inner ∧
    tokens = before ++ ⟨.openParen, opened⟩ :: (inner ++ ⟨.closeParen, closed⟩ :: after)

/-- No parenthesis is the partner of what stands at an offset. -/
def Unpaired (tokens : List Token) (position : Nat) : Prop :=
  ∀ other, ¬ Partners tokens position other ∧ ¬ Partners tokens other position

/-- A closing parenthesis where all that were opened before it are closed. -/
def ClosesNothing (tokens : List Token) (position : Nat) : Prop :=
  ∃ before after, tokens = before ++ ⟨.closeParen, position⟩ :: after ∧ Balanced before

/-- The last opening parenthesis that is not closed. -/
def LastOpen (tokens : List Token) (position : Nat) : Prop :=
  ∃ before after, tokens = before ++ ⟨.openParen, position⟩ :: after ∧ Balanced after

section
variable {opened closed position : Nat} {token : Token} {tokens front back : List Token}

/-- The parentheses open behind some tokens are counted from the first one on. -/
lemma nesting_cons (opened : Nat) (token : Token) (tokens : List Token) :
    nesting opened (token :: tokens) =
      (token.value.nest opened).bind fun opened => nesting opened tokens := rfl

/-- The parentheses open behind two parts are counted through both. -/
lemma nesting_append (opened : Nat) (front back : List Token) :
    nesting opened (front ++ back) =
      (nesting opened front).bind fun opened => nesting opened back :=
  List.foldlM_append

/-- A word does the same where more parentheses are open. -/
lemma Lexeme.nest_add {lexeme : Lexeme} (nest : lexeme.nest opened = some closed) (more : Nat) :
    lexeme.nest (opened + more) = some (closed + more) := by
  cases lexeme with
  | openParen =>
    cases nest
    exact congrArg some (Nat.succ_add opened more).symm
  | closeParen =>
    cases opened with
    | zero => cases nest
    | succ opened =>
      cases nest
      rw [Nat.succ_add]
      rfl
  | _ =>
    cases nest
    rfl

/-- Tokens do the same where more parentheses are open. -/
lemma nesting_add (ends : nesting opened tokens = some closed) (more : Nat) :
    nesting (opened + more) tokens = some (closed + more) := by
  induction tokens generalizing opened with
  | nil =>
    cases ends
    rfl
  | cons token tokens ih =>
    obtain ⟨behind, nest, ends⟩ := Option.bind_eq_some_iff.1 ends
    rw [nesting_cons, Lexeme.nest_add nest more]
    exact ih ends

/-- Balanced tokens leave as many parentheses open as there were. -/
lemma Balanced.nesting (balanced : Balanced tokens) (opened : Nat) :
    nesting opened tokens = some opened := by
  have more := nesting_add balanced opened
  rwa [Nat.zero_add] at more

/-- Balanced tokens change nothing for what follows them. -/
lemma Balanced.nesting_append (balanced : Balanced front) (opened : Nat) (back : List Token) :
    ArithExpr.nesting opened (front ++ back) = ArithExpr.nesting opened back := by
  rw [ArithExpr.nesting_append, balanced.nesting, Option.bind_some]

/-- A token is found in one place among tokens at different offsets. -/
lemma append_cons_inj_of_places {token' front' back'}
    (distinct : ((front ++ token :: back).map Located.position).Nodup)
    (same : front ++ token :: back = front' ++ token' :: back')
    (place : token.position = token'.position) :
    front = front' ∧ token = token' ∧ back = back' := by
  have mem : token ∈ front ++ token :: back := List.mem_append_right _ List.mem_cons_self
  have mem' : token' ∈ front ++ token :: back :=
    same ▸ List.mem_append_right _ List.mem_cons_self
  obtain rfl := List.inj_on_of_nodup_map distinct mem mem' place
  obtain ⟨absent, -⟩ := List.nodup_cons.1 (List.nodup_middle.1 distinct.of_map)
  rw [List.mem_append, not_or] at absent
  exact (List.append_cons_inj_of_notMem absent.1 absent.2).1 same

/-- A parenthesis that closes nothing has no partner. -/
lemma ClosesNothing.unpaired (closes : ClosesNothing tokens position)
    (distinct : (tokens.map Located.position).Nodup) : Unpaired tokens position := by
  obtain ⟨front, back, rfl, balanced⟩ := closes
  refine fun other => ⟨?_, ?_⟩
  · rintro ⟨before, inner, after, -, same⟩
    obtain ⟨-, same, -⟩ := append_cons_inj_of_places distinct same rfl
    cases same
  · rintro ⟨before, inner, after, closed, same⟩
    rw [← List.cons_append, ← List.append_assoc] at same
    obtain ⟨rfl, -, -⟩ := append_cons_inj_of_places distinct same rfl
    -- the partner would still be open behind the tokens before
    rw [Balanced, nesting_append] at balanced
    obtain ⟨opened, -, ends⟩ := Option.bind_eq_some_iff.1 balanced
    have left : nesting opened (⟨.openParen, other⟩ :: inner) = some (opened + 1) :=
      closed.nesting (opened + 1)
    rw [left] at ends
    cases ends

/-- The last parenthesis that is not closed has no partner. -/
lemma LastOpen.unpaired (last : LastOpen tokens position)
    (distinct : (tokens.map Located.position).Nodup) : Unpaired tokens position := by
  obtain ⟨front, back, rfl, balanced⟩ := last
  refine fun other => ⟨?_, ?_⟩
  · rintro ⟨before, inner, after, closed, same⟩
    obtain ⟨-, -, rfl⟩ := append_cons_inj_of_places distinct same rfl
    -- the partner would close a parenthesis where none is open
    rw [Balanced, closed.nesting_append] at balanced
    cases balanced
  · rintro ⟨before, inner, after, -, same⟩
    rw [← List.cons_append, ← List.append_assoc] at same
    obtain ⟨-, same, -⟩ := append_cons_inj_of_places distinct same rfl
    cases same

/-- What stands in front does not close the last open parenthesis. -/
lemma LastOpen.append (last : LastOpen tokens position) (front : List Token) :
    LastOpen (front ++ tokens) position := by
  obtain ⟨before, after, rfl, balanced⟩ := last
  exact ⟨front ++ before, after, (List.append_assoc _ _ _).symm, balanced⟩

/-- Where fewer parentheses are open at the end than at the start there is one that closes the last
one that was open there. -/
lemma exists_closing (inside : Nat) (ends : nesting (opened + 1 + inside) tokens = some 0) :
    ∃ inner closed after, tokens = inner ++ ⟨.closeParen, closed⟩ :: after ∧
      nesting inside inner = some 0 := by
  induction tokens generalizing inside with
  | nil =>
    have none_open := Option.some.inj ends
    omega
  | cons token tokens ih =>
    obtain ⟨lexeme, position⟩ := token
    have goesOn {inside'} (nest : lexeme.nest inside = some inside')
        (ends : nesting (opened + 1 + inside') tokens = some 0) :
        ∃ inner closed after,
          ⟨lexeme, position⟩ :: tokens = inner ++ ⟨.closeParen, closed⟩ :: after ∧
            nesting inside inner = some 0 := by
      obtain ⟨inner, closed, after, rfl, closes⟩ := ih inside' ends
      refine ⟨⟨lexeme, position⟩ :: inner, closed, after, rfl, ?_⟩
      rw [nesting_cons, nest, Option.bind_some, closes]
    cases lexeme with
    | openParen => exact goesOn rfl ends
    | closeParen =>
      cases inside with
      | zero => exact ⟨[], position, tokens, rfl, rfl⟩
      | succ inside => exact goesOn rfl ends
    | _ => exact goesOn rfl ends

/-- Every opening parenthesis among balanced tokens has a partner. -/
lemma Balanced.exists_partners (balanced : Balanced tokens) (mem : ⟨.openParen, opened⟩ ∈ tokens) :
    ∃ closed, Partners tokens opened closed := by
  obtain ⟨before, behind, rfl⟩ := List.append_of_mem mem
  rw [Balanced, ArithExpr.nesting_append] at balanced
  obtain ⟨still, -, ends⟩ := Option.bind_eq_some_iff.1 balanced
  obtain ⟨inner, closed, after, rfl, closes⟩ := exists_closing 0 ends
  exact ⟨closed, before, inner, after, closes, rfl⟩

/-- What stands in front does not part two parentheses. -/
lemma Partners.append (partners : Partners tokens opened closed) (front : List Token) :
    Partners (front ++ tokens) opened closed := by
  obtain ⟨before, inner, after, closes, rfl⟩ := partners
  exact ⟨front ++ before, inner, after, closes, (List.append_assoc _ _ _).symm⟩

/-- What is opened behind the last parenthesis that is not closed is closed. -/
lemma LastOpen.exists_partners (last : LastOpen tokens position)
    (increasing : (tokens.map Located.position).Pairwise (· < ·)) (later : position < opened)
    (mem : ⟨.openParen, opened⟩ ∈ tokens) : ∃ closed, Partners tokens opened closed := by
  obtain ⟨before, after, rfl, balanced⟩ := last
  rw [List.map_append, List.pairwise_append] at increasing
  obtain ⟨-, -, inOrder⟩ := increasing
  rw [List.append_cons, List.mem_append] at mem
  obtain mem | mem := mem
  · -- up to the parenthesis itself no place is later
    obtain mem | mem := List.mem_append.1 mem
    · have earlier : opened < position :=
        inOrder _ (List.mem_map_of_mem mem) _ List.mem_cons_self
      omega
    · cases List.mem_singleton.1 mem
      omega
  · obtain ⟨closed, partners⟩ := balanced.exists_partners mem
    rw [List.append_cons]
    exact ⟨closed, partners.append _⟩

end
end ArithExpr
