/-!
# Stores that forget what was used least recently

A session keeps its programs in a store of bounded size that a library provides. `Store` lists the
operations of such a store and what can be seen of it, and `Store.Lawful` says what is documented of
them: looking a key up makes it the most recent one, and a new key takes the place of the least
recent one if there is no room for it.
-/

namespace ArithExpr

/-- A kind of store for values with keys, at most as many of them as there is room for. -/
structure Store (α : Type) where
  /-- The states of a store. -/
  State : Type
  /-- A store that has seen no key. It has room for something. -/
  new : (capacity : Nat) → capacity ≠ 0 → State
  /-- Looks a key up, which uses it if it is found. -/
  get : State → String → Option α × State
  /-- Puts a key and its value into a store. -/
  push : State → String → α → State
  /-- Takes everything out of a store. -/
  clear : State → State
  /-- The number of keys in a store. -/
  len : State → Nat
  /-- The keys and their values, the most recent use first. -/
  entries : State → List (String × α)
  /-- The number of keys that there is room for. -/
  capacity : State → Nat

namespace Store
variable {α : Type}

/-- What is documented of a kind of store. -/
structure Lawful (store : Store α) : Prop where
  /-- A new store holds nothing. -/
  entries_new {capacity : Nat} (nonzero : capacity ≠ 0) :
    store.entries (store.new capacity nonzero) = []
  /-- A new store has the room that was asked for. -/
  capacity_new {capacity : Nat} (nonzero : capacity ≠ 0) :
    store.capacity (store.new capacity nonzero) = capacity
  /-- The value of a key is the one kept with it. -/
  get_value (state : store.State) (key : String) :
    (store.get state key).1 = (store.entries state).lookup key
  /-- A key that is not found changes nothing. -/
  entries_get_of_miss {state : store.State} {key : String} :
    (store.entries state).lookup key = none →
    store.entries (store.get state key).2 = store.entries state
  /-- A key that is found becomes the most recent one. -/
  entries_get_of_hit {state : store.State} {key : String} {value : α} :
    (store.entries state).lookup key = some value →
    store.entries (store.get state key).2 =
      (key, value) :: (store.entries state).filter fun entry => entry.1 ≠ key
  /-- Looking a key up changes nothing about the room. -/
  capacity_get (state : store.State) (key : String) :
    store.capacity (store.get state key).2 = store.capacity state
  /-- A new key is the most recent one. -/
  entries_push_of_room {state : store.State} {key : String} (value : α) :
    (store.entries state).lookup key = none →
    store.len state < store.capacity state →
    store.entries (store.push state key value) = (key, value) :: store.entries state
  /-- A new key takes the place of the least recent one if the store is full. -/
  entries_push_of_full {state : store.State} {key : String} (value : α) :
    (store.entries state).lookup key = none →
    store.len state = store.capacity state →
    store.entries (store.push state key value) = (key, value) :: (store.entries state).dropLast
  /-- Putting a key into a store changes nothing about the room. -/
  capacity_push (state : store.State) (key : String) (value : α) :
    store.capacity (store.push state key value) = store.capacity state
  /-- A cleared store holds nothing. -/
  entries_clear (state : store.State) : store.entries (store.clear state) = []
  /-- Clearing a store changes nothing about the room. -/
  capacity_clear (state : store.State) : store.capacity (store.clear state) = store.capacity state
  /-- There is always room for something. -/
  capacity_ne_zero (state : store.State) : store.capacity state ≠ 0
  /-- The keys are counted. -/
  len_eq (state : store.State) : store.len state = (store.entries state).length
  /-- There are not more keys than there is room for. -/
  len_le (state : store.State) : store.len state ≤ store.capacity state

/-- A key that is found among some entries has one. -/
theorem mem_of_lookup {entries : List (String × α)} {key : String} {value : α}
    (found : entries.lookup key = some value) : (key, value) ∈ entries := by
  obtain ⟨before, after, same, -⟩ := List.lookup_eq_some_iff.1 found
  rw [same]
  exact List.mem_append_right before List.mem_cons_self

/-- Where a key is found, there are fewer entries of the other keys. -/
theorem length_filter_lt_of_lookup {entries : List (String × α)} {key : String} {value : α}
    (found : entries.lookup key = some value) :
    (entries.filter fun entry => entry.1 ≠ key).length < entries.length :=
  List.length_filter_lt_length_iff_exists.2 ⟨(key, value), mem_of_lookup found, by simp⟩

/-- Where a key is not found, all entries are of other keys. -/
theorem filter_of_lookup_eq_none {entries : List (String × α)} {key : String}
    (missing : entries.lookup key = none) :
    (entries.filter fun entry => entry.1 ≠ key) = entries := by
  refine List.filter_eq_self.2 fun entry mem => ?_
  have other := List.lookup_eq_none_iff.1 missing entry mem
  exact decide_eq_true (Ne.symm (bne_iff_ne.1 other))

namespace Lawful
variable {store : Store α} {state : store.State} {key : String}

/-- A new key comes first, and what there is then no room for goes. -/
theorem entries_push (lawful : store.Lawful) (value : α)
    (missing : (store.entries state).lookup key = none) :
    store.entries (store.push state key value) =
      ((key, value) :: store.entries state).take (store.capacity state) := by
  obtain room | full := Nat.lt_or_eq_of_le (lawful.len_le state)
  · rw [lawful.entries_push_of_room value missing room, List.take_of_length_le]
    rwa [List.length_cons, ← lawful.len_eq, Nat.succ_le_iff]
  · obtain ⟨n, capacity⟩ := Nat.exists_eq_succ_of_ne_zero (lawful.capacity_ne_zero state)
    have length : (store.entries state).length = n + 1 := by
      rw [← lawful.len_eq, full, capacity]
    rw [lawful.entries_push_of_full value missing full, capacity, List.take_succ_cons,
      List.dropLast_eq_take, length]
    rfl

end Lawful
end Store
end ArithExpr
