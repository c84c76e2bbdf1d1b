import ArithExpr.Decimal.Binary64
import ArithExpr.Proofs.Expr.Calls
import ArithExpr.Text.Alphabetic
import ArithExpr.Token.Basic

/-!
# Expressions whose text can be read

The judgment `Built numbers names expr` says that an expression has no other numbers and names than
the given ones. A legible expression has finite numbers without a sign and names that are runs of
letters, so that each of them is a word.
-/

namespace ArithExpr

/-- A word that is a number or a name is one of those given. -/
def Lexeme.Given (numbers : Float → Prop) (names : String → Prop) : Lexeme → Prop
  | .number value => numbers value
  | .name text => names text
  | _ => True

namespace Expr

/-- Every number and every name in an expression is one of those given. -/
inductive Built (numbers : Float → Prop) (names : String → Prop) : Expr → Prop where
  | number {value position} :
    numbers value →
    Built numbers names (.number value position)
  | unary {sign operand position} :
    Built numbers names operand →
    Built numbers names (.unary sign operand position)
  | binary {op left right position} :
    Built numbers names left →
    Built numbers names right →
    Built numbers names (.binary op left right position)
  | call {name args position} :
    names name →
    (∀ arg ∈ args, Built numbers names arg) →
    Built numbers names (.call name args position)

/-- What is built in two ways is built of what both give. -/
lemma Built.and {numbers numbers' names names' expr} (built : Built numbers names expr)
    (built' : Built numbers' names' expr) :
    Built (fun x => numbers x ∧ numbers' x) (fun name => names name ∧ names' name) expr := by
  induction built with
  | number given =>
    cases built' with
    | number given' => exact .number ⟨given, given'⟩
  | unary _ ih =>
    cases built' with
    | unary operand => exact .unary (ih operand)
  | binary _ _ ihLeft ihRight =>
    cases built' with
    | binary left right => exact .binary (ihLeft left) (ihRight right)
  | call given _ ih =>
    cases built' with
    | call given' args => exact .call ⟨given, given'⟩ fun arg mem => ih arg mem (args arg mem)

/-- What is built of some numbers and names is built of more. -/
lemma Built.mono {numbers numbers' : Float → Prop} {names names' : String → Prop} {expr}
    (built : Built numbers names expr) (number : ∀ x, numbers x → numbers' x)
    (name : ∀ text, names text → names' text) : Built numbers' names' expr := by
  induction built with
  | number given => exact .number (number _ given)
  | unary _ ih => exact .unary ih
  | binary _ _ ihLeft ihRight => exact .binary ihLeft ihRight
  | call given _ ih => exact .call (name _ given) ih

/-- No number in an expression is infinite or a NaN. -/
def Finite : Expr → Prop :=
  Built (fun x => x.isFinite = true) fun _ => True

/-- A name is a run of letters, at least one. -/
def IsName (name : String) : Prop :=
  name.toList ≠ [] ∧ ∀ c ∈ name.toList, Text.isAlphabetic c = true

/-- Every number in an expression is finite with a clear sign bit, and every name is a run of
letters. -/
def Legible : Expr → Prop :=
  Built (fun x => x.isFinite = true ∧ Binary64.isNegative x = false) IsName

end Expr
end ArithExpr
