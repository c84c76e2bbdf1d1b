import ArithExpr.Proofs.Session.History
import Mathlib.Data.List.Induction

/-!
# What a session remembers

A session remembers the programs of the texts used last. A use is a request for the value or the
program of a text that stands for an expression, and forgetting starts anew. A request does one of
four things (`Session.Served`), and each fact about a run is kept by every one of them. Main
statement: after a run the texts remembered are the ones used last, as many as there is room for,
and a text that is remembered is answered with the program that was made for it last
(`Session.remembers_recent`).
-/

namespace ArithExpr

/-- Of equal texts the same ones are left whether some others are removed before or after. -/
lemma eraseDups_filter (keeps : String → Bool) (texts : List String) :
    (texts.filter keeps).eraseDups = texts.eraseDups.filter keeps := by
  cases texts with
  | nil => rfl
  | cons text texts =>
    rw [List.eraseDups_cons, List.filter_cons, List.filter_cons, ← eraseDups_filter keeps]
    by_cases kept : keeps text = true
    · rw [if_pos kept, if_pos kept, List.eraseDups_cons, List.filter_filter, List.filter_filter]
      simp only [Bool.and_comm]
    · rw [if_neg kept, if_neg kept, List.filter_filter]
      refine congrArg _ (List.filter_congr fun other _ => ?_)
      by_cases same : other = text
      · simp [same, kept]
      · simp [same]
termination_by texts.length
decreasing_by exact Nat.lt_succ_of_le (List.length_filter_le _ _)

/-- No text is left twice. -/
lemma nodup_eraseDups (texts : List String) : texts.eraseDups.Nodup := by
  cases texts with
  | nil => exact List.nodup_nil
  | cons text texts =>
    rw [List.eraseDups_cons, List.nodup_cons]
    exact ⟨by simp [List.mem_eraseDups], nodup_eraseDups _⟩
termination_by texts.length
decreasing_by exact Nat.lt_succ_of_le (List.length_filter_le _ _)

/-- A text may be left out of distinct ones before or after they are cut to one more than are
wanted. -/
lemma take_filter_take {texts : List String} (distinct : texts.Nodup) (text : String) (n : Nat) :
    ((texts.take (n + 1)).filter (· ≠ text)).take n = (texts.filter (· ≠ text)).take n := by
  induction texts generalizing n with
  | nil => rfl
  | cons head texts ih =>
    obtain ⟨absent, distinct⟩ := List.nodup_cons.1 distinct
    rw [List.take_succ_cons, List.filter_cons, List.filter_cons]
    by_cases same : head = text
    · -- the text does not come again
      have others : ∀ other ∈ texts, decide (other ≠ text) = true :=
        fun other mem => decide_eq_true fun eq => absent (same ▸ eq ▸ mem)
      have kept : (texts.take n).filter (· ≠ text) = texts.take n :=
        List.filter_eq_self.2 fun other mem => others other (List.mem_of_mem_take mem)
      rw [if_neg (by simp [same]), if_neg (by simp [same]), kept, List.filter_eq_self.2 others,
        List.take_take, Nat.min_self]
    · rw [if_pos (by simp [same]), if_pos (by simp [same])]
      cases n with
      | zero => rfl
      | succ n => rw [List.take_succ_cons, List.take_succ_cons, ih distinct]

/-- Of distinct texts the same ones are left whether they are cut to a number of texts before or
after one of them is moved to the front. -/
lemma take_cons_filter_take {texts : List String} (distinct : texts.Nodup) (text : String)
    (n : Nat) :
    (text :: (texts.take n).filter (· ≠ text)).take n =
      (text :: texts.filter (· ≠ text)).take n := by
  cases n with
  | zero => rfl
  | succ n => rw [List.take_succ_cons, List.take_succ_cons, take_filter_take distinct]

namespace Memory
variable {memory : Memory} {text other : String} {compiled : Compiled} {program : Program}

/-- A text that is found is remembered. -/
lemma mem_texts_of_find? (found : memory.find? text = some compiled) : text ∈ memory.texts :=
  List.mem_map.2 ⟨_, Store.mem_of_lookup found, rfl⟩

/-- A text that is remembered is found. -/
lemma exists_find?_of_mem_texts (mem : text ∈ memory.texts) :
    ∃ compiled, memory.find? text = some compiled := by
  obtain ⟨entry, kept, rfl⟩ := List.mem_map.1 mem
  have found : (memory.find? entry.1).isSome = true :=
    List.lookup_isSome_iff.2 ⟨entry, kept, beq_self_eq_true _⟩
  exact Option.isSome_iff_exists.1 found

/-- A use puts the text in front of the others. -/
lemma texts_use (memory : Memory) (text : String) (compiled : Compiled) :
    (memory.use text compiled).texts = text :: memory.texts.filter (· ≠ text) := by
  rw [texts, use, List.map_cons, texts, List.filter_map]
  rfl

/-- A text that is added comes first, and what there is then no room for goes. -/
lemma texts_add (memory : Memory) (text : String) (program : Program) :
    (memory.add text program).texts = (text :: memory.texts).take memory.room := by
  rw [texts, add, List.map_take, List.map_cons]
  rfl

/-- A text that was just used has the program that it was used with. -/
lemma find?_use_self (memory : Memory) (text : String) (compiled : Compiled) :
    (memory.use text compiled).find? text = some compiled :=
  List.lookup_cons_self

/-- Removing the entries of one text leaves the entry of another. -/
lemma lookup_filter_ne (ne : other ≠ text) (entries : List (String × Compiled)) :
    List.lookup other (entries.filter fun entry => entry.1 ≠ text) = List.lookup other entries := by
  induction entries with
  | nil => rfl
  | cons entry entries ih =>
    rw [List.filter_cons, List.lookup_cons]
    by_cases same : entry.1 = text
    · rw [if_neg (by simp [same]), ih, same, beq_eq_false_iff_ne.2 ne]
    · rw [if_pos (by simp [same]), List.lookup_cons, ih]

/-- A use changes nothing for another text. -/
lemma find?_use_of_ne (ne : other ≠ text) :
    (memory.use text compiled).find? other = memory.find? other := by
  rw [find?, use, List.lookup_cons, beq_eq_false_iff_ne.2 ne]
  exact lookup_filter_ne ne memory.entries

/-- What is found behind an addition is the program added or was found before. -/
lemma find?_add (found : (memory.add text program).find? other = some compiled) :
    other = text ∧ compiled = ⟨memory.made, program⟩ ∨
      other ≠ text ∧ memory.find? other = some compiled := by
  have found : List.lookup other ((text, ⟨memory.made, program⟩) :: memory.entries) =
      some compiled := (List.take_prefix _ _).lookup_eq_some found
  rw [List.lookup_cons] at found
  split at found
  next same => exact .inl ⟨beq_iff_eq.1 same, (Option.some.inj found).symm⟩
  next other => exact .inr ⟨beq_eq_false_iff_ne.1 other, found⟩

/-- Every program remembered has a smaller number than the next one that is made. -/
def Numbered (memory : Memory) : Prop :=
  ∀ entry ∈ memory.entries, entry.2.serial < memory.made

namespace Compiles
variable {evaluator : Evaluator} {next : Memory} {answer : Except Error Compiled}

/-- A text that is remembered is answered with the program remembered. -/
lemma answer_of_found (compiles : Compiles evaluator memory text answer next)
    (found : memory.find? text = some compiled) : answer = .ok compiled := by
  cases compiles with
  | finds same => rw [← Option.some.inj (same.symm.trans found)]
  | fails missing => cases missing.symm.trans found
  | makes missing => cases missing.symm.trans found

/-- For a text that is not remembered a program with a new number is made. -/
lemma answer_of_missing (compiles : Compiles evaluator memory text answer next)
    (missing : memory.find? text = none) (ok : evaluator.compile text = .ok program) :
    answer = .ok ⟨memory.made, program⟩ := by
  cases compiles with
  | finds found => cases missing.symm.trans found
  | fails _ fails => cases ok.symm.trans fails
  | makes _ same => rw [← Except.ok.inj (same.symm.trans ok)]

/-- A program that is answered was made before or for the answer. -/
lemma serial_lt (compiles : Compiles evaluator memory text answer next)
    (numbered : memory.Numbered) (answered : answer = .ok compiled) :
    compiled.serial < next.made := by
  cases compiles with
  | finds found =>
    cases answered
    exact numbered _ (Store.mem_of_lookup found)
  | fails => cases answered
  | makes =>
    cases answered
    exact Nat.lt_succ_self _

end Compiles
end Memory

namespace Session

/-- The text whose program a request asks for. -/
def Request.text? : Request → Option String
  | .evaluate text => some text
  | .compile text => some text
  | .clear => none
  | .direct _ => none

/-- The text that a request uses, if it stands for an expression. -/
def Request.use? (evaluator : Evaluator) (request : Request) : Option String :=
  request.text?.filter fun text => (evaluator.parse text).isOk

/-- Whether a request is to forget the programs. -/
def Request.isClear : Request → Bool
  | .clear => true
  | _ => false

/-- A request that asks for a program is not one to forget them. -/
lemma Request.isClear_of_text? {request : Request} {text} (asks : request.text? = some text) :
    request.isClear = false := by
  cases request with
  | clear => cases asks
  | evaluate | compile | direct => rfl

/-- The different texts used since the programs were last forgotten, the most recent use first. -/
def recentTexts (evaluator : Evaluator) (requests : List Request) : List String :=
  ((requests.reverse.takeWhile fun request => !request.isClear).filterMap
    (Request.use? evaluator)).eraseDups

/-- Behind a clearing no text has been used. -/
lemma recentTexts_clear (evaluator : Evaluator) (requests : List Request) :
    recentTexts evaluator (requests ++ [.clear]) = [] := by
  simp [recentTexts, Request.isClear]

/-- A request that uses no text does not change which ones were used last. -/
lemma recentTexts_of_not_use {evaluator : Evaluator} {request : Request}
    (other : request.isClear = false) (unused : request.use? evaluator = none)
    (requests : List Request) :
    recentTexts evaluator (requests ++ [request]) = recentTexts evaluator requests := by
  simp [recentTexts, other, unused]

/-- The text that a request uses is the last one used, once. -/
lemma recentTexts_of_use {evaluator : Evaluator} {request : Request} {text}
    (use : request.use? evaluator = some text) (requests : List Request) :
    recentTexts evaluator (requests ++ [request]) =
      text :: (recentTexts evaluator requests).filter (· ≠ text) := by
  have other := Request.isClear_of_text? (Option.eq_some_of_filter_eq_some use)
  have first : List.takeWhile (fun request => !request.isClear) (requests ++ [request]).reverse =
      request :: requests.reverse.takeWhile fun request => !request.isClear := by
    simp [other]
  rw [recentTexts, first, List.filterMap_cons_some use, List.eraseDups_cons, eraseDups_filter]
  exact congrArg _ (List.filter_congr fun other _ => by simp [beq_eq_decide])

/-- What a request does to a memory. -/
inductive Served (evaluator : Evaluator) (memory : Memory) : Request → Memory → Prop where
  | forgets :
    Served evaluator memory .clear memory.clear
  | passes {request} :
    request.isClear = false →
    request.use? evaluator = none →
    Served evaluator memory request memory
  | hits {request text compiled} :
    request.use? evaluator = some text →
    memory.find? text = some compiled →
    Served evaluator memory request (memory.use text compiled)
  | makes {request text program} :
    request.use? evaluator = some text →
    memory.find? text = none →
    evaluator.compile text = .ok program →
    Served evaluator memory request (memory.add text program)

/-- A request for a text that can be read uses it. -/
lemma Request.use?_of_parse {evaluator : Evaluator} {request : Request} {text expr}
    (asks : request.text? = some text) (ok : evaluator.parse text = .ok expr) :
    request.use? evaluator = some text := by
  rw [use?, asks, Option.filter_some, ok]
  rfl

/-- A request for a text that cannot be read uses none. -/
lemma Request.use?_of_parse_error {evaluator : Evaluator} {request : Request} {text error}
    (asks : request.text? = some text) (fails : evaluator.parse text = .error error) :
    request.use? evaluator = none := by
  rw [use?, asks, Option.filter_some, fails]
  rfl

/-- A request for the value or the program of a text uses it, unless it stands for no expression. -/
lemma Served.of_compiles {evaluator : Evaluator} {memory next : Memory} {text answer}
    (compiles : memory.Compiles evaluator text answer next) (faithful : memory.Faithful evaluator)
    {request : Request} (asks : request.text? = some text) :
    Served evaluator memory request next := by
  cases compiles with
  | finds found =>
    obtain ⟨expr, parsed, -⟩ := Evaluator.parse_of_compile (faithful.compile_of_find? found)
    exact .hits (Request.use?_of_parse asks parsed) found
  | fails missing fails =>
    have fails := Evaluator.parse_of_compile_error fails
    exact .passes (Request.isClear_of_text? asks) (Request.use?_of_parse_error asks fails)
  | makes missing ok =>
    obtain ⟨expr, parsed, -⟩ := Evaluator.parse_of_compile ok
    exact .makes (Request.use?_of_parse asks parsed) missing ok

variable {store : Store Compiled}

/-- A request forgets everything, changes nothing, or uses a text whose program is remembered or
made. -/
theorem Faithful.served (lawful : store.Lawful) {evaluator : Evaluator} {session : Session store}
    (faithful : Faithful evaluator session) (request : Request) :
    Served evaluator session.memory request (session.answer request).2.memory := by
  have compiles (text) : session.memory.Compiles evaluator text (session.compile text).1
      (session.compile text).2.memory := faithful.reads ▸ compiles lawful session text
  cases request with
  | evaluate text => exact .of_compiles (compiles text) faithful.remembers rfl
  | compile text => exact .of_compiles (compiles text) faithful.remembers rfl
  | clear =>
    show Served evaluator session.memory .clear session.clear.memory
    rw [memory_clear lawful]
    exact .forgets
  | direct text => exact .passes rfl rfl

/-- The session after some requests. -/
def after (store : Store Compiled) (evaluator : Evaluator) (requests : List Request) :
    Session store :=
  ((start evaluator store).run requests).2

/-- A run is what came before its last request and the answer to that. -/
lemma run_concat (session : Session store) (requests : List Request) (request : Request) :
    session.run (requests ++ [request]) =
      ((session.run requests).1 ++ [((session.run requests).2.answer request).1],
        ((session.run requests).2.answer request).2) := by
  induction requests generalizing session with
  | nil => rfl
  | cons first requests ih => simp only [List.cons_append, run, ih]

/-- The session after one more request is the one after its answer. -/
lemma after_concat (evaluator : Evaluator) (requests : List Request) (request : Request) :
    after store evaluator (requests ++ [request]) =
      ((after store evaluator requests).answer request).2 := by
  rw [after, run_concat]
  rfl

/-- A session is faithful whatever it was asked. -/
lemma faithful_after (lawful : store.Lawful) (evaluator : Evaluator) (requests : List Request) :
    Faithful evaluator (after store evaluator requests) :=
  ((Faithful.start lawful evaluator).run lawful requests).2

/-- One more request does to the memory what a request does. -/
lemma served_after (lawful : store.Lawful) (evaluator : Evaluator) (requests : List Request)
    (request : Request) :
    Served evaluator (after store evaluator requests).memory request
      (after store evaluator (requests ++ [request])).memory := by
  rw [after_concat]
  exact (faithful_after lawful evaluator requests).served lawful request

/-- A use comes first among the texts remembered. -/
lemma Served.texts {evaluator memory request next} (served : Served evaluator memory request next)
    {requests} {n : Nat} (room : memory.room = n)
    (texts : memory.texts = (recentTexts evaluator requests).take n) :
    next.room = n ∧ next.texts = (recentTexts evaluator (requests ++ [request])).take n := by
  have distinct : (recentTexts evaluator requests).Nodup := nodup_eraseDups _
  cases served with
  | forgets =>
    refine ⟨room, ?_⟩
    rw [recentTexts_clear, List.take_nil]
    rfl
  | passes other unused =>
    refine ⟨room, ?_⟩
    rw [recentTexts_of_not_use other unused, texts]
  | @hits _ text compiled used found =>
    refine ⟨room, ?_⟩
    have mem := Memory.mem_texts_of_find? found
    rw [texts] at mem
    -- the text was one of the n, so there are fewer others
    have fewer : (((recentTexts evaluator requests).take n).filter (· ≠ text)).length < n :=
      Nat.lt_of_lt_of_le
        (List.length_filter_lt_length_iff_exists.2 ⟨text, mem, by simp⟩) (List.length_take_le _ _)
    rw [recentTexts_of_use used, ← take_cons_filter_take distinct, Memory.texts_use, texts]
    exact (List.take_of_length_le fewer).symm
  | @makes _ text program used missing made =>
    refine ⟨room, ?_⟩
    have absent : ∀ other ∈ (recentTexts evaluator requests).take n,
        decide (other ≠ text) = true := by
      rintro other mem
      refine decide_eq_true fun same => ?_
      rw [← texts, same] at mem
      obtain ⟨compiled, found⟩ := Memory.exists_find?_of_mem_texts mem
      cases missing.symm.trans found
    rw [recentTexts_of_use used, ← take_cons_filter_take distinct, List.filter_eq_self.2 absent,
      Memory.texts_add, room, texts]

/-- The texts remembered are the ones used last, as many as there is room for. -/
lemma texts_after (lawful : store.Lawful) (evaluator : Evaluator) (requests : List Request) :
    (after store evaluator requests).memory.room = evaluator.limits.cacheSize ∧
    (after store evaluator requests).memory.texts =
      (recentTexts evaluator requests).take evaluator.limits.cacheSize := by
  induction requests using List.reverseRecOn with
  | nil =>
    show (start evaluator store).memory.room = _ ∧ (start evaluator store).memory.texts = _
    rw [memory_start lawful]
    exact ⟨rfl, List.take_nil.symm⟩
  | append_singleton requests request ih =>
    exact (served_after lawful evaluator requests request).texts ih.1 ih.2

/-- No request takes a number back. -/
lemma Served.made_le {evaluator memory request next}
    (served : Served evaluator memory request next) : memory.made ≤ next.made := by
  cases served with
  | forgets => exact Nat.le_refl _
  | passes => exact Nat.le_refl _
  | hits => exact Nat.le_refl _
  | makes => exact Nat.le_succ _

/-- A request keeps the numbers below that of the next program. -/
lemma Served.numbered {evaluator memory request next}
    (served : Served evaluator memory request next) (numbered : memory.Numbered) :
    next.Numbered := by
  cases served with
  | forgets => exact List.forall_mem_nil _
  | passes => exact numbered
  | hits _ found =>
    intro entry mem
    obtain rfl | mem := List.mem_cons.1 mem
    · exact numbered _ (Store.mem_of_lookup found)
    · exact numbered entry (List.mem_filter.1 mem).1
  | makes _ _ _ =>
    intro entry mem
    obtain rfl | mem := List.mem_cons.1 (List.mem_of_mem_take mem)
    · exact Nat.lt_succ_self _
    · exact Nat.lt_succ_of_lt (numbered entry mem)

/-- After some requests the numbers are below that of the next program. -/
lemma numbered_after (lawful : store.Lawful) (evaluator : Evaluator) (requests : List Request) :
    (after store evaluator requests).memory.Numbered := by
  induction requests using List.reverseRecOn with
  | nil =>
    show (start evaluator store).memory.Numbered
    rw [memory_start lawful]
    exact List.forall_mem_nil _
  | append_singleton requests request ih =>
    exact (served_after lawful evaluator requests request).numbered ih

/-- A program that is answered was made before or for the answer. -/
lemma serial_lt_of_answer (lawful : store.Lawful) {session : Session store} {request compiled}
    (numbered : session.memory.Numbered)
    (answered : (session.answer request).1 = .program (.ok compiled)) :
    compiled.serial < (session.answer request).2.memory.made := by
  cases request with
  | evaluate text => cases answered
  | clear => cases answered
  | direct text => cases answered
  | compile text =>
    have answered : (session.compile text).1 = .ok compiled := Answer.program.inj answered
    show compiled.serial < (session.compile text).2.memory.made
    exact (compiles lawful session text).serial_lt numbered answered

/-- Every program that was answered was made before. -/
lemma answered_serials_after (lawful : store.Lawful) (evaluator : Evaluator)
    (requests : List Request) :
    ∀ compiled, .program (.ok compiled) ∈ ((start evaluator store).run requests).1 →
      compiled.serial < (after store evaluator requests).memory.made := by
  induction requests using List.reverseRecOn with
  | nil => simp [run]
  | append_singleton requests request ih =>
    intro compiled mem
    rw [run_concat] at mem
    obtain mem | mem := List.mem_append.1 mem
    · exact Nat.lt_of_lt_of_le (ih compiled mem)
        (served_after lawful evaluator requests request).made_le
    · rw [after_concat]
      exact serial_lt_of_answer lawful (numbered_after lawful evaluator requests)
        (List.mem_singleton.1 mem).symm

/-- A request uses a text whose program is not remembered after the requests before it. -/
def Misses (store : Store Compiled) (evaluator : Evaluator) (before : List Request)
    (request : Request) (text : String) : Prop :=
  request.use? evaluator = some text ∧ text ∉ (after store evaluator before).memory.texts

/-- The program that was made for a text when it was missed last. -/
def MadeLast (store : Store Compiled) (evaluator : Evaluator) (requests : List Request)
    (text : String) (compiled : Compiled) : Prop :=
  ∃ before request later, requests = before ++ request :: later ∧
    Misses store evaluator before request text ∧
    ((after store evaluator before).compile text).1 = .ok compiled ∧
    ∀ between next rest, later = between ++ next :: rest →
      ¬ Misses store evaluator (before ++ request :: between) next text

namespace MadeLast
variable {evaluator : Evaluator} {requests : List Request} {request : Request} {text : String}
  {compiled : Compiled}

/-- What is made when a text is missed is what was made for it last. -/
lemma of_misses (misses : Misses store evaluator requests request text)
    (ok : ((after store evaluator requests).compile text).1 = .ok compiled) :
    MadeLast store evaluator (requests ++ [request]) text compiled :=
  ⟨requests, request, [], rfl, misses, ok, by simp⟩

/-- A request that does not miss a text makes nothing for it. -/
lemma concat (made : MadeLast store evaluator requests text compiled)
    (kept : ¬ Misses store evaluator requests request text) :
    MadeLast store evaluator (requests ++ [request]) text compiled := by
  obtain ⟨before, first, later, rfl, misses, ok, others⟩ := made
  refine ⟨before, first, later ++ [request], by simp, misses, ok, ?_⟩
  intro between next rest same
  obtain rfl | ⟨rest, last, rfl⟩ := List.eq_nil_or_concat rest
  · obtain ⟨same, last⟩ := List.append_inj' same rfl
    rw [← same, ← List.singleton_inj.1 last]
    exact kept
  · rw [List.concat_eq_append, ← List.cons_append, ← List.append_assoc] at same
    exact others between next rest (List.append_inj' same rfl).1

end MadeLast

/-- The program remembered for a text is the one made for it last. -/
lemma madeLast_of_find? (lawful : store.Lawful) {evaluator : Evaluator} {requests : List Request}
    {text compiled} (found : (after store evaluator requests).memory.find? text = some compiled) :
    MadeLast store evaluator requests text compiled := by
  induction requests using List.reverseRecOn with
  | nil =>
    have empty : (after store evaluator []).memory = .empty evaluator.limits.cacheSize :=
      memory_start lawful evaluator
    rw [empty] at found
    cases found
  | append_singleton requests request ih =>
    have served := served_after lawful evaluator requests request
    -- a text that was remembered is not missed
    have kept (found : (after store evaluator requests).memory.find? text = some compiled) :
        MadeLast store evaluator (requests ++ [request]) text compiled :=
      (ih found).concat fun misses => misses.2 (Memory.mem_texts_of_find? found)
    generalize (after store evaluator (requests ++ [request])).memory = next at served found
    cases served with
    | forgets => cases found
    | passes => exact kept found
    | @hits _ used remembered use hit =>
      by_cases same : text = used
      · subst same
        cases (Memory.find?_use_self _ _ _).symm.trans found
        exact kept hit
      · exact kept ((Memory.find?_use_of_ne same).symm.trans found)
    | @makes _ used program use missing ok =>
      obtain ⟨rfl, rfl⟩ | ⟨-, found⟩ := Memory.find?_add found
      · rw [← (faithful_after lawful evaluator requests).reads] at ok
        have answered := (compiles lawful _ text).answer_of_missing missing ok
        refine .of_misses ⟨use, fun mem => ?_⟩ answered
        obtain ⟨remembered, hit⟩ := Memory.exists_find?_of_mem_texts mem
        cases missing.symm.trans hit
      · exact kept found

/-- A request that uses no text changes nothing, unless it is to forget the programs. -/
lemma Served.eq_of_not_use {evaluator memory request next}
    (served : Served evaluator memory request next) (other : request.isClear = false)
    (unused : request.use? evaluator = none) : next = memory := by
  cases served with
  | forgets => cases other
  | passes => rfl
  | hits used => cases unused.symm.trans used
  | makes used => cases unused.symm.trans used

/-- A text that is remembered is answered with the program made for it last. -/
lemma answer_of_mem_texts (lawful : store.Lawful) {evaluator : Evaluator} {requests : List Request}
    {text} (mem : text ∈ (after store evaluator requests).memory.texts) :
    ∃ compiled, (after store evaluator requests).memory.find? text = some compiled ∧
      ((after store evaluator requests).answer (.compile text)).1 = .program (.ok compiled) ∧
      MadeLast store evaluator requests text compiled := by
  obtain ⟨compiled, found⟩ := Memory.exists_find?_of_mem_texts mem
  exact ⟨compiled, found, congrArg Answer.program ((compiles lawful _ text).answer_of_found found),
    madeLast_of_find? lawful found⟩

/-- A text that is not remembered is answered with a program that was not answered before. -/
lemma answer_of_not_mem_texts (lawful : store.Lawful) {evaluator : Evaluator}
    {requests : List Request} {text expr} (ok : evaluator.parse text = .ok expr)
    (missing : text ∉ (after store evaluator requests).memory.texts) :
    ∃ compiled,
      ((after store evaluator requests).answer (.compile text)).1 = .program (.ok compiled) ∧
      ∀ earlier, .program (.ok earlier) ∈ ((start evaluator store).run requests).1 →
        earlier.serial ≠ compiled.serial := by
  obtain ⟨program, -, ok⟩ := Evaluator.compile_of_parse ok
  rw [← (faithful_after lawful evaluator requests).reads] at ok
  have found : (after store evaluator requests).memory.find? text = none :=
    Option.eq_none_iff_forall_ne_some.2 fun _ hit => missing (Memory.mem_texts_of_find? hit)
  refine ⟨⟨(after store evaluator requests).memory.made, program⟩, ?_, fun earlier mem => ?_⟩
  · exact congrArg Answer.program ((compiles lawful _ text).answer_of_missing found ok)
  · exact Nat.ne_of_lt (answered_serials_after lawful evaluator requests earlier mem)

/-- After a run the texts remembered are the ones used last, as many as there is room for. A text
that stands for no expression and a value asked of the evaluator change nothing, a value that is an
error is a use like any other. A program is the one made for its text last if the text is
remembered, and else one that was not answered before. -/
theorem remembers_recent (lawful : store.Lawful) (evaluator : Evaluator)
    (requests : List Request) :
    let session := after store evaluator requests
    let recent := recentTexts evaluator requests
    let room := evaluator.limits.cacheSize
    (session.memory.texts = recent.take room ∧ session.cached = min room recent.length) ∧
    (∀ text error, evaluator.parse text = .error error →
      (session.answer (.evaluate text)).2.memory = session.memory ∧
      (session.answer (.compile text)).2.memory = session.memory) ∧
    (∀ text, (session.answer (.direct text)).2 = session) ∧
    (∀ text expr error, evaluator.parse text = .ok expr →
      (session.answer (.evaluate text)).1 = .value (.error error) →
      (session.answer (.evaluate text)).2.memory.texts =
        (text :: recent.filter (· ≠ text)).take room) ∧
    (∀ text ∈ session.memory.texts, ∃ compiled, session.memory.find? text = some compiled ∧
      (session.answer (.compile text)).1 = .program (.ok compiled) ∧
      MadeLast store evaluator requests text compiled) ∧
    (∀ text expr, evaluator.parse text = .ok expr → text ∉ session.memory.texts →
      ∃ compiled, (session.answer (.compile text)).1 = .program (.ok compiled) ∧
        ∀ earlier, .program (.ok earlier) ∈ ((start evaluator store).run requests).1 →
          earlier.serial ≠ compiled.serial) := by
  intro session recent room
  have served := (faithful_after lawful evaluator requests).served lawful
  have texts := (texts_after lawful evaluator requests).2
  refine ⟨⟨texts, ?_⟩, fun text error fails => ⟨?_, ?_⟩, fun text => rfl,
    fun text expr error parsed failed => ?_, fun text => answer_of_mem_texts lawful,
    fun text expr => answer_of_not_mem_texts lawful⟩
  · rw [cached_eq lawful, texts, List.length_take]
  · exact (served (.evaluate text)).eq_of_not_use rfl (Request.use?_of_parse_error rfl fails)
  · exact (served (.compile text)).eq_of_not_use rfl (Request.use?_of_parse_error rfl fails)
  · have used : Request.use? evaluator (.evaluate text) = some text :=
      Request.use?_of_parse rfl parsed
    rw [← recentTexts_of_use used, ← after_concat]
    exact (texts_after lawful evaluator (requests ++ [.evaluate text])).2

/-- Three texts with room for two: the one that was used least recently is forgotten, and a text
that cannot be read takes no room. -/
theorem remembers_recent_of_three_texts :
    let evaluator : Evaluator := ⟨Standard.context, ⟨128, 2⟩⟩
    let requests : List Request :=
      [.compile "1", .compile "2", .compile "1", .evaluate "1/0", .compile "(3"]
    let session := after Recent.store evaluator requests
    Store.Lawful (Recent.store : Store Compiled) ∧
    session.memory.texts = ["1/0", "1"] ∧ session.cached = 2 ∧
    ∃ compiled, session.memory.find? "1" = some compiled ∧
      (session.answer (.compile "1")).1 = .program (.ok compiled) := by
  intro evaluator requests session
  have recent : recentTexts evaluator requests = ["1/0", "1", "2"] := by decide +kernel
  obtain ⟨⟨texts, cached⟩, -, -, -, remembered, -⟩ :=
    remembers_recent Recent.lawful evaluator requests
  rw [recent] at texts cached
  have mem : "1" ∈ session.memory.texts := by
    rw [texts]
    decide
  obtain ⟨compiled, found, answered, -⟩ := remembered "1" mem
  exact ⟨Recent.lawful, texts, cached, compiled, found, answered⟩

end Session
end ArithExpr
