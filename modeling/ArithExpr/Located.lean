/-!
# Values with a place in the input

Tokens, instructions and errors all carry the offset at which they belong, counted in characters
from the start of the input.
-/

namespace ArithExpr

/-- A value together with the character offset it belongs to. -/
structure Located (α : Type) where
  /-- What is located. -/
  value : α
  /-- Characters of the input before it. -/
  position : Nat
deriving DecidableEq, Repr

namespace Located
variable {α β : Type}

/-- Changes the value and leaves it where it is. -/
def map (f : α → β) (x : Located α) : Located β :=
  ⟨f x.value, x.position⟩

/-- Moves a value `offset` characters to the right. -/
def shift (x : Located α) (offset : Nat) : Located α :=
  ⟨x.value, x.position + offset⟩

end Located
end ArithExpr
