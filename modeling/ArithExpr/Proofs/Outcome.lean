import Mathlib.Tactic.Lemma

/-!
# Answers that may be errors

How a step that goes on with a value meets an answer that is one, or that is an error.
-/

namespace ArithExpr
variable {ε ε' α β : Type}

/-- A value is handed on. -/
@[simp]
lemma ok_bind (value : α) (f : α → Except ε β) : (Except.ok value >>= f) = f value := rfl

/-- An error is final. -/
@[simp]
lemma error_bind (error : ε) (f : α → Except ε β) : (Except.error error >>= f) = .error error := rfl

/-- A value has no error to be changed. -/
@[simp]
lemma mapError_ok (f : ε → ε') (value : α) : (Except.ok value).mapError f = .ok value := rfl

/-- The error itself is changed. -/
@[simp]
lemma mapError_error (f : ε → ε') (error : ε) :
    (Except.error error : Except ε α).mapError f = .error (f error) := rfl

/-- Changing a value is handing it on to be changed. -/
lemma map_eq_bind (f : α → β) (x : Except ε α) : x.map f = x >>= fun a => .ok (f a) := by
  cases x <;> rfl

/-- The errors of two steps are renamed step by step. -/
lemma mapError_bind (g : ε → ε') (x : Except ε α) (f : α → Except ε β) :
    (x >>= f).mapError g = x.mapError g >>= fun a => (f a).mapError g := by
  cases x <;> rfl

/-- An answer that is no error is a value. -/
lemma exists_of_isOk {x : Except ε α} (ok : x.isOk = true) : ∃ a, x = .ok a := by
  cases x with
  | error error => cases ok
  | ok a => exact ⟨a, rfl⟩

/-- Two steps give a value if the first gives one with which the second gives it. -/
lemma bind_eq_ok_iff {x : Except ε α} {f : α → Except ε β} {b} :
    (x >>= f) = .ok b ↔ ∃ a, x = .ok a ∧ f a = .ok b := by
  cases x <;> simp

/-- Two steps give an error if the first does, or if it gives a value with which the second does. -/
lemma bind_eq_error_iff {x : Except ε α} {f : α → Except ε β} {error} :
    (x >>= f) = .error error ↔ x = .error error ∨ ∃ a, x = .ok a ∧ f a = .error error := by
  cases x <;> simp

/-- A renamed error is one that was there. -/
lemma mapError_eq_error_iff {g : ε → ε'} {x : Except ε α} {error} :
    x.mapError g = .error error ↔ ∃ error', x = .error error' ∧ g error' = error := by
  cases x <;> simp

end ArithExpr
