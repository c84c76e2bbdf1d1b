import ArithExpr.Session.Basic
import Mathlib.Data.List.Defs

/-!
# What can be seen of a session

A session is told by what its store holds, by the room there and by the number of programs made, and
not by the state that the store is in. Asking for a program finds it, fails, or makes it
(`Memory.Compiles`), and the memory says which. Main statement: so does a session whose store is as
documented (`Session.compiles`).
-/

namespace ArithExpr

/-- What can be seen of the programs that a session remembers. -/
structure Memory where
  /-- The texts remembered and their programs, the most recent use first. -/
  entries : List (String × Compiled)
  /-- The number of programs that there is room for. -/
  room : Nat
  /-- The number of programs made so far. -/
  made : Nat

namespace Memory

/-- A memory that has seen no text. -/
def empty (room : Nat) : Memory :=
  ⟨[], room, 0⟩

/-- The texts remembered, the most recent use first. -/
def texts (memory : Memory) : List String :=
  memory.entries.map Prod.fst

/-- The program remembered for a text. -/
def find? (memory : Memory) (text : String) : Option Compiled :=
  memory.entries.lookup text

/-- Moves a text that is remembered to the front. -/
def use (memory : Memory) (text : String) (compiled : Compiled) : Memory :=
  { memory with
    entries := (text, compiled) :: memory.entries.filter fun entry => entry.1 ≠ text }

/-- Puts a program that was made in front of the others, and lets go what there is no room for. -/
def add (memory : Memory) (text : String) (program : Program) : Memory :=
  { memory with
    entries := ((text, ⟨memory.made, program⟩) :: memory.entries).take memory.room
    made := memory.made + 1 }

/-- A memory without its programs. -/
def clear (memory : Memory) : Memory :=
  { memory with entries := [] }

/-- What comes of asking for the program of a text: the answer and the memory behind it. -/
inductive Compiles (evaluator : Evaluator) (memory : Memory) (text : String) :
    Except Error Compiled → Memory → Prop where
  | finds {compiled} :
    memory.find? text = some compiled →
    Compiles evaluator memory text (.ok compiled) (memory.use text compiled)
  | fails {error} :
    memory.find? text = none →
    evaluator.compile text = .error error →
    Compiles evaluator memory text (.error error) memory
  | makes {program} :
    memory.find? text = none →
    evaluator.compile text = .ok program →
    Compiles evaluator memory text (.ok ⟨memory.made, program⟩) (memory.add text program)

end Memory

namespace Session
variable {store : Store Compiled} {session : Session store} {text : String}

/-- What can be seen of a session. Without a store there is no room. -/
def memory (session : Session store) : Memory :=
  ⟨session.cache.elim [] store.entries, session.cache.elim 0 store.capacity, session.made⟩

/-- A session starts with an empty memory of the size that its limits say. -/
lemma memory_start (lawful : store.Lawful) (evaluator : Evaluator) :
    (start evaluator store).memory = .empty evaluator.limits.cacheSize := by
  unfold start memory
  split
  next nonzero =>
    show Memory.mk (store.entries _) (store.capacity _) 0 = _
    rw [lawful.entries_new, lawful.capacity_new]
    rfl
  next zero =>
    rw [Decidable.not_not.1 zero]
    rfl

/-- Clearing a session clears its memory. -/
lemma memory_clear (lawful : store.Lawful) (session : Session store) :
    session.clear.memory = session.memory.clear := by
  obtain ⟨evaluator, cache, made⟩ := session
  cases cache with
  | none => rfl
  | some state =>
    show Memory.mk (store.entries _) (store.capacity _) made = _
    rw [lawful.entries_clear, lawful.capacity_clear]
    rfl

/-- A session counts the programs in its memory. -/
lemma cached_eq (lawful : store.Lawful) (session : Session store) :
    session.cached = session.memory.texts.length := by
  rw [Memory.texts, List.length_map]
  obtain ⟨evaluator, cache, made⟩ := session
  cases cache with
  | none => rfl
  | some state => exact lawful.len_eq state

/-- A program that is remembered is found, which uses its text. -/
lemma lookUp_of_found (lawful : store.Lawful) {compiled}
    (found : session.memory.find? text = some compiled) :
    ∃ next, session.lookUp text = (some compiled, next) ∧
      next.memory = session.memory.use text compiled := by
  obtain ⟨evaluator, cache, made⟩ := session
  cases cache with
  | none => cases found
  | some state =>
    have found : (store.entries state).lookup text = some compiled := found
    refine ⟨_, Prod.ext ((lawful.get_value state text).trans found) rfl, ?_⟩
    show Memory.mk (store.entries _) (store.capacity _) made = _
    rw [lawful.entries_get_of_hit found, lawful.capacity_get]
    rfl

/-- A program that is not remembered is not found, which changes nothing. -/
lemma lookUp_of_missing (lawful : store.Lawful) (missing : session.memory.find? text = none) :
    ∃ next, session.lookUp text = (none, next) ∧ next.evaluator = session.evaluator ∧
      next.memory = session.memory := by
  obtain ⟨evaluator, cache, made⟩ := session
  cases cache with
  | none => exact ⟨_, rfl, rfl, rfl⟩
  | some state =>
    have missing : (store.entries state).lookup text = none := missing
    refine ⟨_, Prod.ext ((lawful.get_value state text).trans missing) rfl, rfl, ?_⟩
    show Memory.mk (store.entries _) (store.capacity _) made = _
    rw [lawful.entries_get_of_miss missing, lawful.capacity_get]
    rfl

/-- A program that was made is added to the memory. -/
lemma memory_remember (lawful : store.Lawful) (missing : session.memory.find? text = none)
    (program : Program) :
    memory { session.remember text ⟨session.made, program⟩ with made := session.made + 1 } =
      session.memory.add text program := by
  obtain ⟨evaluator, cache, made⟩ := session
  cases cache with
  | none => rfl
  | some state =>
    show Memory.mk (store.entries _) (store.capacity _) (made + 1) = _
    rw [lawful.entries_push _ missing, lawful.capacity_push]
    rfl

/-- Asking a session for a program does with its memory what asking for one does. -/
theorem compiles (lawful : store.Lawful) (session : Session store) (text : String) :
    Memory.Compiles session.evaluator session.memory text (session.compile text).1
      (session.compile text).2.memory := by
  cases found : session.memory.find? text with
  | some compiled =>
    obtain ⟨next, looked, used⟩ := lookUp_of_found lawful found
    rw [compile, looked, used]
    exact .finds found
  | none =>
    -- a miss leaves the memory as it was, so a program is added to that very memory
    obtain ⟨next, looked, reads, kept⟩ := lookUp_of_missing lawful found
    rw [compile, looked, ← kept, ← reads]
    rw [← kept] at found
    dsimp only
    cases compiles : next.evaluator.compile text with
    | error error => exact .fails found compiles
    | ok program =>
      rw [memory_remember lawful found]
      exact .makes found compiles

/-- A session keeps its evaluator. -/
lemma evaluator_compile (session : Session store) (text : String) :
    (session.compile text).2.evaluator = session.evaluator := by
  have looked : (session.lookUp text).2.evaluator = session.evaluator := by
    rw [lookUp]
    split <;> rfl
  rw [compile]
  split
  next same => rw [← looked, same]
  next next same =>
    rw [← looked, same]
    cases next.evaluator.compile text <;> rfl

end Session
end ArithExpr
