import ArithExpr.Evaluator
import ArithExpr.Session.Recent

/-!
# Sessions

A session evaluates texts through their programs and remembers the programs of the texts used last,
in a store of some kind. Each program that is made gets a serial number, so that a remembered one
can be told from one made again.
-/

namespace ArithExpr

/-- A program and its number among those that a session made. -/
structure Compiled where
  /-- The number of programs made before it. -/
  serial : Nat
  /-- The program. -/
  program : Program

/-- An evaluator and the programs it remembers in a store, in a list where no other is given. -/
structure Session (store : Store Compiled := Recent.store) where
  /-- How texts are read. -/
  evaluator : Evaluator
  /-- The programs of the texts used last, unless none are to be remembered. -/
  cache : Option store.State
  /-- The number of programs made so far. -/
  made : Nat

namespace Session
variable {store : Store Compiled}

/-- A session that remembers nothing yet. There is no store of no size. -/
def start (evaluator : Evaluator) (store : Store Compiled := Recent.store) : Session store where
  evaluator
  cache :=
    if nonzero : evaluator.limits.cacheSize ≠ 0 then
      some (store.new evaluator.limits.cacheSize nonzero)
    else none
  made := 0

/-- Looks for the program of a text among those remembered. -/
def lookUp (session : Session store) (text : String) : Option Compiled × Session store :=
  match session.cache with
  | none => (none, session)
  | some cache =>
    let (found, cache) := store.get cache text
    (found, { session with cache := some cache })

/-- Remembers the program of a text, if any are to be remembered. -/
def remember (session : Session store) (text : String) (compiled : Compiled) : Session store :=
  { session with cache := session.cache.map fun cache => store.push cache text compiled }

/-- The program of a text, remembered or made. A text without a program is not remembered. -/
def compile (session : Session store) (text : String) : Except Error Compiled × Session store :=
  match session.lookUp text with
  | (some compiled, session) => (.ok compiled, session)
  | (none, session) =>
    match session.evaluator.compile text with
    | .error error => (.error error, session)
    | .ok program =>
      let compiled : Compiled := ⟨session.made, program⟩
      (.ok compiled, { session.remember text compiled with made := session.made + 1 })

/-- The value of a text, found by running its program. -/
def evaluate (session : Session store) (text : String) : Except Error Float × Session store :=
  let (compiled, session) := session.compile text
  let value := do
    let compiled ← compiled
    compiled.program.run.mapError (Located.map .eval)
  (value, session)

/-- The number of programs remembered. -/
def cached (session : Session store) : Nat :=
  session.cache.elim 0 store.len

/-- Forgets all programs. -/
def clear (session : Session store) : Session store :=
  { session with cache := session.cache.map store.clear }

end Session
end ArithExpr
