import ArithExpr.Session.Store

/-!
# A list of what was used last

The values whose keys were used last, in a list with the most recent use first. Main statement: a
store that keeps such lists does what is documented of stores (`Recent.lawful`).
-/

namespace ArithExpr

/-- The values of the keys used last, the most recent use first. -/
structure Recent (α : Type) where
  /-- The number of values kept at most. -/
  capacity : Nat
  /-- The keys and their values. -/
  entries : List (String × α)
  capacity_ne_zero : capacity ≠ 0
  length_le : entries.length ≤ capacity

namespace Recent
variable {α : Type}

/-- The list of a capacity that has seen no key. -/
def empty (capacity : Nat) (nonzero : capacity ≠ 0) : Recent α :=
  ⟨capacity, [], nonzero, Nat.zero_le capacity⟩

/-- The list without its entries. -/
def clear (recent : Recent α) : Recent α :=
  empty recent.capacity recent.capacity_ne_zero

/-- Uses a key with a value, which drops the key that was used least recently if there are too many
then. -/
def use (recent : Recent α) (key : String) (value : α) : Recent α where
  capacity := recent.capacity
  entries := ((key, value) :: recent.entries.filter fun entry => entry.1 ≠ key).take recent.capacity
  capacity_ne_zero := recent.capacity_ne_zero
  length_le := List.length_take_le _ _

/-- Looks a key up, which uses it if it is found. -/
def get (recent : Recent α) (key : String) : Option α × Recent α :=
  match recent.entries.lookup key with
  | some value => (some value, recent.use key value)
  | none => (none, recent)

/-- The store that keeps a list. -/
def store : Store α where
  State := Recent α
  new := empty
  get := get
  push := use
  clear := clear
  len recent := recent.entries.length
  entries := entries
  capacity := capacity

variable {recent : Recent α} {key : String}

/-- A use of a key that is there moves it to the front. -/
theorem entries_use_of_hit {old : α} (value : α) (found : recent.entries.lookup key = some old) :
    (recent.use key value).entries =
      (key, value) :: recent.entries.filter fun entry => entry.1 ≠ key := by
  refine List.take_of_length_le (Nat.le_trans ?_ recent.length_le)
  exact Nat.succ_le_of_lt (Store.length_filter_lt_of_lookup found)

/-- A use of a key that is not there puts it in front of the others. -/
theorem entries_use_of_miss (value : α) (missing : recent.entries.lookup key = none) :
    (recent.use key value).entries = ((key, value) :: recent.entries).take recent.capacity := by
  show ((key, value) :: recent.entries.filter fun entry => entry.1 ≠ key).take _ = _
  rw [Store.filter_of_lookup_eq_none missing]

/-- Looking up a key that is there uses it with its value. -/
theorem get_of_hit {value : α} (found : recent.entries.lookup key = some value) :
    recent.get key = (some value, recent.use key value) := by
  rw [get, found]

/-- Looking up a key that is not there does nothing. -/
theorem get_of_miss (missing : recent.entries.lookup key = none) :
    recent.get key = (none, recent) := by
  rw [get, missing]

/-- A store that keeps a list does what is documented of stores. -/
theorem lawful : (store : Store α).Lawful where
  entries_new _ := rfl
  capacity_new _ := rfl
  get_value recent key := by
    show (recent.get key).1 = recent.entries.lookup key
    cases found : recent.entries.lookup key with
    | none => rw [get_of_miss found]
    | some value => rw [get_of_hit found]
  entries_get_of_miss {recent key} missing := by
    show (recent.get key).2.entries = recent.entries
    rw [get_of_miss missing]
  entries_get_of_hit {recent key value} found := by
    show (recent.get key).2.entries = _
    rw [get_of_hit found]
    exact entries_use_of_hit value found
  capacity_get recent key := by
    show (recent.get key).2.capacity = recent.capacity
    cases found : recent.entries.lookup key with
    | none => rw [get_of_miss found]
    | some value =>
      rw [get_of_hit found]
      rfl
  entries_push_of_room {recent key} value missing room := by
    show (recent.use key value).entries = (key, value) :: recent.entries
    rw [entries_use_of_miss value missing]
    exact List.take_of_length_le room
  entries_push_of_full {recent key} value missing full := by
    show (recent.use key value).entries = (key, value) :: recent.entries.dropLast
    have full : recent.entries.length = recent.capacity := full
    have pos := Nat.pos_of_ne_zero recent.capacity_ne_zero
    rw [entries_use_of_miss value missing, List.dropLast_eq_take, full, ← List.take_succ_cons,
      Nat.sub_add_cancel pos]
  capacity_push _ _ _ := rfl
  entries_clear _ := rfl
  capacity_clear _ := rfl
  capacity_ne_zero := capacity_ne_zero
  len_eq _ := rfl
  len_le := length_le

end Recent
end ArithExpr
