import ArithExpr.Proofs.Program.Texts
import ArithExpr.Proofs.Session.Memory

/-!
# What a session has seen is never visible

A session is asked for values and programs of texts and to forget its programs, in any order. Every
program that it remembers is the one of its text, and each request keeps this so. Main statement:
with any store that is as documented, every answer in a run is one that an evaluator without a
memory allows (`Session.run_allowed`).
-/

namespace ArithExpr

/-- What a session is asked: the value or the program of a text, to forget its programs, or the
value of a text from its evaluator. -/
inductive Session.Request where
  | evaluate (text : String)
  | compile (text : String)
  | clear
  | direct (text : String)

/-- What a session answers. -/
inductive Session.Answer where
  | value (value : Except Error Float)
  | program (compiled : Except Error Compiled)
  | cleared

/-- What an evaluator without a memory allows as an answer: its own value, its own parse error, or
any program that equals the one of the expression that it reads. -/
def Evaluator.Allows (evaluator : Evaluator) : Session.Request → Session.Answer → Prop
  | .evaluate text, .value value => value = evaluator.evaluate text
  | .compile text, .program (.error error) => evaluator.parse text = .error error
  | .compile text, .program (.ok compiled) =>
    ∃ expr, evaluator.parse text = .ok expr ∧
      expr.compile evaluator.context = .ok compiled.program
  | .clear, .cleared => True
  | .direct text, .value value => value = evaluator.evaluate text
  | _, _ => False

namespace Session

variable {store : Store Compiled}

/-- Answers a request. -/
def answer (session : Session store) : Request → Answer × Session store
  | .evaluate text => (session.evaluate text).map .value id
  | .compile text => (session.compile text).map .program id
  | .clear => (.cleared, session.clear)
  | .direct text => (.value (session.evaluator.evaluate text), session)

/-- Answers one request after the other. -/
def run (session : Session store) : List Request → List Answer × Session store
  | [] => ([], session)
  | request :: requests =>
    let (answer, session) := session.answer request
    let (answers, session) := session.run requests
    (answer :: answers, session)

end Session

namespace Memory

/-- Every program remembered is the one that an evaluator finds for its text. -/
def Faithful (evaluator : Evaluator) (memory : Memory) : Prop :=
  ∀ entry ∈ memory.entries, evaluator.compile entry.1 = .ok entry.2.program

/-- What a faithful memory has for a text is the program that the evaluator finds. -/
lemma Faithful.compile_of_find? {evaluator : Evaluator} {memory : Memory} {text compiled}
    (faithful : memory.Faithful evaluator) (found : memory.find? text = some compiled) :
    evaluator.compile text = .ok compiled.program :=
  faithful (text, compiled) (Store.mem_of_lookup found)

/-- Asking a faithful memory gives the program that the evaluator finds, or its error, and leaves a
faithful memory. -/
lemma Compiles.faithful {evaluator : Evaluator} {memory next : Memory} {text answer}
    (compiles : Compiles evaluator memory text answer next) (faithful : memory.Faithful evaluator) :
    answer.map Compiled.program = evaluator.compile text ∧ next.Faithful evaluator := by
  cases compiles with
  | finds found =>
    have ok := faithful.compile_of_find? found
    refine ⟨ok.symm, fun entry mem => ?_⟩
    obtain rfl | mem := List.mem_cons.1 mem
    · exact ok
    · exact faithful entry (List.mem_filter.1 mem).1
  | fails missing fails => exact ⟨fails.symm, faithful⟩
  | makes missing ok =>
    refine ⟨ok.symm, fun entry mem => ?_⟩
    obtain rfl | mem := List.mem_cons.1 (List.mem_of_mem_take mem)
    · exact ok
    · exact faithful entry mem

end Memory

namespace Session
variable {store : Store Compiled}

/-- A session reads texts like the evaluator and remembers the programs that the evaluator finds. -/
structure Faithful (evaluator : Evaluator) (session : Session store) : Prop where
  reads : session.evaluator = evaluator
  remembers : session.memory.Faithful evaluator

namespace Faithful
variable {evaluator : Evaluator} {session : Session store}

/-- A session starts faithful, since it remembers nothing. -/
lemma start (lawful : store.Lawful) (evaluator : Evaluator) :
    Faithful evaluator (Session.start evaluator store) := by
  refine ⟨rfl, ?_⟩
  rw [memory_start lawful]
  exact List.forall_mem_nil _

/-- A session that forgets everything is faithful. -/
lemma clear (lawful : store.Lawful) (faithful : Faithful evaluator session) :
    Faithful evaluator session.clear := by
  refine ⟨faithful.reads, ?_⟩
  rw [memory_clear lawful]
  exact List.forall_mem_nil _

/-- A faithful session finds the program that the evaluator finds, or its error, and stays
faithful. -/
lemma compile (lawful : store.Lawful) (faithful : Faithful evaluator session) (text : String) :
    (session.compile text).1.map Compiled.program = evaluator.compile text ∧
      Faithful evaluator (session.compile text).2 := by
  have compiles := compiles lawful session text
  rw [faithful.reads] at compiles
  obtain ⟨same, kept⟩ := compiles.faithful faithful.remembers
  exact ⟨same, (evaluator_compile session text).trans faithful.reads, kept⟩

/-- A faithful session finds the value that the evaluator finds, or its error, and stays
faithful. -/
lemma evaluate (lawful : store.Lawful) (faithful : Faithful evaluator session) (text : String) :
    (session.evaluate text).1 = evaluator.evaluate text ∧
      Faithful evaluator (session.evaluate text).2 := by
  obtain ⟨same, kept⟩ := faithful.compile lawful text
  refine ⟨?_, kept⟩
  simp only [Session.evaluate]
  cases compiled : (session.compile text).1 with
  | error error =>
    rw [compiled] at same
    exact (Evaluator.evaluate_of_compile_error same.symm).symm
  | ok compiled' =>
    rw [compiled] at same
    exact Evaluator.run_of_compile same.symm

/-- The answer to a request is one that the evaluator allows, and the session stays faithful. -/
theorem answer (lawful : store.Lawful) (faithful : Faithful evaluator session)
    (request : Request) :
    evaluator.Allows request (session.answer request).1 ∧
      Faithful evaluator (session.answer request).2 := by
  cases request with
  | evaluate text => exact faithful.evaluate lawful text
  | compile text =>
    obtain ⟨same, kept⟩ := faithful.compile lawful text
    refine ⟨?_, kept⟩
    simp only [Session.answer, Prod.map]
    cases compiled : (session.compile text).1 with
    | error error =>
      rw [compiled] at same
      exact Evaluator.parse_of_compile_error same.symm
    | ok compiled' =>
      rw [compiled] at same
      exact Evaluator.parse_of_compile same.symm
  | clear => exact ⟨trivial, faithful.clear lawful⟩
  | direct text =>
    refine ⟨?_, faithful⟩
    rw [Session.answer, faithful.reads]
    rfl

/-- The answers of a run are ones that the evaluator allows, and the session stays faithful. -/
theorem run (lawful : store.Lawful) (faithful : Faithful evaluator session)
    (requests : List Request) :
    List.Forall₂ evaluator.Allows requests (session.run requests).1 ∧
      Faithful evaluator (session.run requests).2 := by
  induction requests generalizing session with
  | nil => exact ⟨.nil, faithful⟩
  | cons request requests ih =>
    obtain ⟨allowed, kept⟩ := faithful.answer lawful request
    obtain ⟨others, kept⟩ := ih kept
    exact ⟨.cons allowed others, kept⟩

end Faithful

/-- Whatever a session was asked before, and whatever its store has forgotten, every answer is one
that its evaluator allows. -/
theorem run_allowed (lawful : store.Lawful) (evaluator : Evaluator) (requests : List Request) :
    List.Forall₂ evaluator.Allows requests ((start evaluator store).run requests).1 :=
  ((Faithful.start lawful evaluator).run lawful requests).1

/-- A quotient by zero that is asked for twice, with room for one program, with another text between
the two, and once more when everything was forgotten. -/
theorem run_allowed_of_recent :
    let evaluator : Evaluator := ⟨Standard.context, ⟨128, 1⟩⟩
    let requests : List Request := [.evaluate "1/0", .compile "2", .evaluate "1/0", .clear,
      .compile "1/0", .direct "(2", .compile "(2"]
    Store.Lawful (Recent.store : Store Compiled) ∧
    List.Forall₂ evaluator.Allows requests ((start evaluator Recent.store).run requests).1 := by
  intro evaluator requests
  exact ⟨Recent.lawful, run_allowed Recent.lawful evaluator requests⟩

end Session
end ArithExpr
