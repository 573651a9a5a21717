import Jst.Verif.CycleDetection
/-!
# The places of requests

Every request is in one place at a time: with one thread, with one task, among the tasks that await
one node, consumed, or dropped by a node that has failed. Its failure function is registered with at
most one node that may still fail, and the creation of every key has come to one point. The
invariant ties these places to the state, and says what a request has come to when nothing is left
to do.
-/
namespace Jst.Verif.AsyncMap

open Multithreading CycleDetection

variable {Key Value : Type}

/-- The value creator of a key is called. -/
def isCreated [DecidableEq Key] (key : Key) : Event Key Value → Bool
  | .created other => other = key
  | _ => false

/-- The consumer of a request is called. -/
def isConsumed (id : Nat) : Event Key Value → Bool
  | .consumed request _ => request.id = id
  | _ => false

/-- The failure function of a request is called. -/
def isFailed (id : Nat) : Event Key Value → Bool
  | .failed request => request.id = id
  | _ => false

section Statement

variable (state : State Key Value) (request : Request Key Value)

/-- How often the consumer of a request has been called. -/
def consumerCalls : Nat := state.events.countP (isConsumed request.id)

/-- How often the failure function of a request has been called. -/
def failureCalls : Nat := state.events.countP (isFailed request.id)

/-- The value of a key has been set. -/
def Ready (key : Key) : Prop := (state.nodes key).isReady = true

/-- The node of a key has failed. -/
def Failed (key : Key) : Prop := (state.nodes key).failed = true

/-- A request waits for a key that is neither set nor failed. -/
def Waits : Prop :=
  ∃ key ∈ request.keys, ¬ Ready state key ∧ ¬ Failed state key ∧
    ∃ rest, .whenAllReady request rest ∈ (state.nodes key).awaitingTasks

/-- What a request has come to when nothing is left to do. -/
inductive Outcome : Prop where
  | consumed (once : consumerCalls state request = 1) (unfailed : failureCalls state request = 0)
      (ready : ∀ key ∈ request.keys, Ready state key)
  | failed (unconsumed : consumerCalls state request = 0) (once : failureCalls state request = 1)
      (key : Key) (requested : key ∈ request.keys) (failed : Failed state key)
  | waiting (unconsumed : consumerCalls state request = 0)
      (unfailed : failureCalls state request = 0) (waits : Waits state request)

end Statement

section Places

/-- A thread works for a request. -/
def serves (id : Nat) : Thread Key Value → Bool
  | .ensure request _ | .enqueue request _ _ | .onFailure request _
  | .onFailureLocked request _ | .await request _ | .awaitLocked request _ => request.id = id
  | .record _ _ | .perform _ _ _ | .log _ => false

/-- A task brings a request forward. -/
def advances (id : Nat) : Task Key Value → Bool
  | .whenAllReady request _ | .consume request => request.id = id
  | .process _ _ | .fail _ => false

/-- A task calls the failure function of a request. -/
def reports (id : Nat) : Task Key Value → Bool
  | .fail request => request.id = id
  | _ => false

/-- Where a request is. -/
inductive Phase (Key Value : Type) where
  | absent
  | running (thread : Thread Key Value)
  | awaiting (key : Key) (task : Task Key Value)
  | queued (task : Task Key Value)
  | consumed
  | dropped (key : Key)

/-- Where the failure function of a request is. -/
inductive Report (Key : Type) where
  | none
  | registered (key : Key)
  | queued
  | called

/-- All that a state holds of one request. -/
@[ext] structure Contents (Key Value : Type) where
  threads : List (Thread Key Value)
  queue : List (Task Key Value)
  awaiting : Key → List (Task Key Value)
  consumed : Nat

/-- All that a state holds of the failure function of one request. -/
@[ext] structure Reports (Key : Type) where
  queue : Nat
  nodes : Key → Nat
  called : Nat

/-- What a state holds of one request. -/
def contents (state : State Key Value) (id : Nat) : Contents Key Value where
  threads := state.threads.filter (serves id)
  queue := state.queue.filter (advances id)
  awaiting := fun key => (state.nodes key).awaitingTasks.filter (advances id)
  consumed := state.events.countP (isConsumed id)

/-- What a state holds of the failure function of one request. -/
def reported (state : State Key Value) (id : Nat) : Reports Key where
  queue := state.queue.countP (reports id)
  nodes := fun key =>
    if (state.nodes key).isReady then 0 else (state.nodes key).failureTasks.countP (reports id)
  called := state.events.countP (isFailed id)

variable [DecidableEq Key]

/-- A thread works on the creation of a key. -/
def creates (key : Key) : Thread Key Value → Bool
  | .enqueue _ other _ => other = key
  | .perform other _ _ => other = key
  | _ => false

/-- A task calls the value creator of a key. -/
def starts (key : Key) : Task Key Value → Bool
  | .process other _ => other = key
  | _ => false

/-- How far the creation of a key has come. -/
inductive Creation (Key Value : Type) where
  | idle
  | enqueuing (request : Request Key Value) (rest : List Key)
  | queued (loggers : List Key)
  | performing (loggers : List Key) (behaviour : Behaviour Key Value)
  | asking (id : Nat)
  | done

/-- What a state holds of the creation of one key. -/
@[ext] structure Creations (Key Value : Type) where
  threads : List (Thread Key Value)
  queue : List (Task Key Value)
  created : Nat

/-- What a state holds of the creation of one key. -/
def creations (state : State Key Value) (key : Key) : Creations Key Value where
  threads := state.threads.filter (creates key)
  queue := state.queue.filter (starts key)
  created := state.events.countP (isCreated key)

/-- What a request in a place leaves in the state. -/
def Phase.contents : Phase Key Value → Contents Key Value
  | .running thread => ⟨[thread], [], fun _ => [], 0⟩
  | .awaiting key task => ⟨[], [], fun other => if other = key then [task] else [], 0⟩
  | .queued task => ⟨[], [task], fun _ => [], 0⟩
  | .consumed => ⟨[], [], fun _ => [], 1⟩
  | .absent | .dropped _ => ⟨[], [], fun _ => [], 0⟩

/-- What a failure function in a place leaves in the state. -/
def Report.contents : Report Key → Reports Key
  | .none => ⟨0, fun _ => 0, 0⟩
  | .registered key => ⟨0, fun other => if other = key then 1 else 0, 0⟩
  | .queued => ⟨1, fun _ => 0, 0⟩
  | .called => ⟨0, fun _ => 0, 1⟩

/-- What a creation leaves in the state. -/
def Creation.contents (key : Key) : Creation Key Value → Creations Key Value
  | .idle => ⟨[], [], 0⟩
  | .enqueuing request rest => ⟨[.enqueue request key rest], [], 0⟩
  | .queued loggers => ⟨[], [.process key loggers], 0⟩
  | .performing loggers behaviour => ⟨[.perform key loggers behaviour], [], 1⟩
  | .asking _ | .done => ⟨[], [], 1⟩

end Places

section Facts

variable (state : State Key Value) (request : Request Key Value)

/-- The processing of a key has been queued. -/
def Marked (key : Key) : Prop := (state.nodes key).queued = true

/-- The nodes of a request have been marked, and those before the rest are ready. -/
structure Reached (rest : List Key) : Prop where
  marked : ∀ key ∈ request.keys, Marked state key
  passed : ∃ done, request.keys = done ++ rest ∧ ∀ key ∈ done, Ready state key

/-- What becomes of the failure function while a request asks a node. -/
def Registered (key : Key) (report : Report Key) : Prop :=
  if request.hasFail then
    Ready state key ∧ report = .none ∨
      ¬ Ready state key ∧ ¬ Failed state key ∧ report = .registered key ∨
      Failed state key ∧ (report = .queued ∨ report = .called)
  else report = .none

/-- What holds of a request in a place, with its failure function in another place. -/
inductive Fits : Phase Key Value → Report Key → Prop where
  | ensure (rest : List Key) (some' : request.keys ≠ [])
      (passed : ∃ done, request.keys = done ++ rest ∧ ∀ key ∈ done, Marked state key) :
      Fits (.running (.ensure request rest)) .none
  | enqueue (key : Key) (rest : List Key) (marked : Marked state key)
      (passed : ∃ done, request.keys = done ++ key :: rest ∧ ∀ key ∈ done, Marked state key) :
      Fits (.running (.enqueue request key rest)) .none
  | onFailure (key : Key) (rest : List Key) (reached : Reached state request (key :: rest)) :
      Fits (.running (.onFailure request (key :: rest))) .none
  | onFailureLocked (key : Key) (rest : List Key) (reached : Reached state request (key :: rest))
      (hasFail : request.hasFail = true) :
      Fits (.running (.onFailureLocked request (key :: rest))) .none
  | await (key : Key) (rest : List Key) (reached : Reached state request (key :: rest))
      (report : Report Key) (registered : Registered state request key report) :
      Fits (.running (.await request (key :: rest))) report
  | awaitLocked (key : Key) (rest : List Key) (reached : Reached state request (key :: rest))
      (report : Report Key) (registered : Registered state request key report) :
      Fits (.running (.awaitLocked request (key :: rest))) report
  | awaiting (key : Key) (rest : List Key) (reached : Reached state request (key :: rest))
      (unready : ¬ Ready state key) (unfailed : ¬ Failed state key) (report : Report Key)
      (registered : Registered state request key report) :
      Fits (.awaiting key (.whenAllReady request rest)) report
  | whenAllReady (rest : List Key) (reached : Reached state request rest) :
      Fits (.queued (.whenAllReady request rest)) .none
  | consume (ready : ∀ key ∈ request.keys, Ready state key) :
      Fits (.queued (.consume request)) .none
  | consumed (ready : ∀ key ∈ request.keys, Ready state key) : Fits .consumed .none
  | dropped (key : Key) (requested : key ∈ request.keys) (failed : Failed state key)
      (report : Report Key) (registered : Registered state request key report) :
      Fits (.dropped key) report

end Facts

section Invariants

variable [DecidableEq Key]

/-- What holds of all nodes. -/
structure Nodes (state : State Key Value) : Prop where
  exclusive : ∀ key, Ready state key → ¬ Failed state key
  awaitingTasks : ∀ key, ∀ task ∈ (state.nodes key).awaitingTasks,
    ∃ request rest, task = .whenAllReady request rest
  failureTasks : ∀ key, ∀ task ∈ (state.nodes key).failureTasks, ∃ request, task = .fail request

/-- A failure function is queued or with a node. -/
def Holds (state : State Key Value) (request : Request Key Value) : Prop :=
  .fail request ∈ state.queue ∨ ∃ key, .fail request ∈ (state.nodes key).failureTasks

/-- What holds of all requests, given where they and their failure functions are. -/
structure Progress (state : State Key Value) (phase : Nat → Phase Key Value)
    (report : Nat → Report Key) : Prop where
  contents : ∀ id, contents state id = (phase id).contents
  reported : ∀ id, reported state id = (report id).contents
  fits : ∀ request ∈ state.requests, Fits state request (phase request.id) (report request.id)
  absent : ∀ id, state.requests.length ≤ id → phase id = .absent ∧ report id = .none
  numbered : ∀ (id : Nat) (request : Request Key Value), state.requests[id]? = some request →
    request.id = id
  failures : ∀ request, Holds state request → request ∈ state.requests
  recorded : ∀ request ∈ state.requests, ∀ (caller key : Key) (task : Task Key Value),
    request.consumerId = some caller → phase request.id = .awaiting key task →
      (caller, key) ∈ state.nodeRequests ∨ .record caller key ∈ state.threads
  values : ∀ (request : Request Key Value) (values : List Value),
    .consumed request values ∈ state.events →
    state.values request.keys = some values
  settled : ∀ request ∈ state.requests, ∀ caller, request.consumerId = some caller →
    report request.id = .called → Ready state caller ∨ Failed state caller

/-- What holds of the creation of all keys, given how far they have come. -/
structure Created (state : State Key Value) (phase : Nat → Phase Key Value)
    (creation : Key → Creation Key Value) : Prop where
  creations : ∀ key, creations state key = (creation key).contents key
  idle : ∀ key, creation key = .idle ↔ ¬ Marked state key
  ready : ∀ key, Ready state key → creation key = .done
  settled : ∀ key, creation key = .done → Ready state key ∨ Failed state key
  asking : ∀ key id, creation key = .asking id →
    ∃ request ∈ state.requests, request.id = id ∧ request.consumerId = some key ∧
      phase id ≠ .consumed
  asks : ∀ request ∈ state.requests, ∀ key, request.consumerId = some key →
    phase request.id ≠ .consumed → creation key = .asking request.id

/-- The places of requests, failure functions and creations. -/
structure Ghost (Key Value : Type) where
  phase : Nat → Phase Key Value
  report : Nat → Report Key
  creation : Key → Creation Key Value

/-- The invariant of all runs. -/
structure Invariant (state : State Key Value) (ghost : Ghost Key Value) : Prop where
  nodes : Nodes state
  progress : Progress state ghost.phase ghost.report
  created : Created state ghost.phase ghost.creation

end Invariants

section Quiescence

variable [DecidableEq Key] {state : State Key Value} {ghost : Ghost Key Value}

theorem Invariant.outcome (good : Invariant state ghost) (quiescent : state.Quiescent)
    {request : Request Key Value} (made : request ∈ state.requests)
    (hasFail : request.hasFail = true) : Outcome state request := by
  obtain ⟨noTask, noThread⟩ := quiescent
  have place := good.progress.contents request.id
  have report := good.progress.reported request.id
  have fits := good.progress.fits request made
  have calls : consumerCalls state request = (ghost.phase request.id).contents.consumed := by
    rw [← place]
    rfl
  have failures : failureCalls state request = (ghost.report request.id).contents.called := by
    rw [← report]
    rfl
  have idle : (ghost.phase request.id).contents.threads = [] := by
    rw [← place]
    simp [contents, noThread]
  have empty : (ghost.phase request.id).contents.queue = [] := by
    rw [← place]
    simp [contents, noTask]
  have unreported : (ghost.report request.id).contents.queue = 0 := by
    rw [← report]
    simp [reported, noTask]
  have held : (ghost.phase request.id).contents.awaiting =
      fun key => (state.nodes key).awaitingTasks.filter (advances request.id) := by
    rw [← place]
    rfl
  generalize ghost.phase request.id = phase at *
  generalize ghost.report request.id = report at *
  cases fits with
  | ensure | enqueue | onFailure | onFailureLocked | await | awaitLocked => cases idle
  | whenAllReady | consume => cases empty
  | consumed ready => exact .consumed calls failures ready
  | awaiting key rest reached unready unfailed _ registered =>
    have here : Task.whenAllReady request rest ∈ (state.nodes key).awaitingTasks := by
      have task := congrFun held key
      simp only [Phase.contents, if_true] at task
      exact (mem_filter.mp (task ▸ mem_singleton.mpr rfl)).1
    obtain ⟨done, keys, -⟩ := reached.passed
    have requested : key ∈ request.keys := by
      rw [keys]
      simp
    have none : failureCalls state request = 0 := by
      rw [failures]
      simp only [Registered, hasFail, if_true] at registered
      rcases registered with ⟨ready, -⟩ | ⟨-, -, rfl⟩ | ⟨failed, -⟩
      · exact absurd ready unready
      · rfl
      · exact absurd failed unfailed
    exact .waiting calls none ⟨key, requested, unready, unfailed, rest, here⟩
  | dropped key requested failed _ registered =>
    refine .failed calls ?_ key requested failed
    rw [failures]
    simp only [Registered, hasFail, if_true] at registered
    rcases registered with ⟨ready, -⟩ | ⟨-, unfailed, -⟩ | ⟨-, rfl | rfl⟩
    · exact absurd failed (good.nodes.exclusive key ready)
    · exact absurd failed unfailed
    · cases unreported
    · rfl

theorem Progress.awaiting {phase : Nat → Phase Key Value} {report : Nat → Report Key}
    (good : Progress state phase report) {key : Key} {task : Task Key Value} {id : Nat}
    (member : task ∈ (state.nodes key).awaitingTasks) (own : advances id task = true) :
    phase id = .awaiting key task := by
  have held : task ∈ (AsyncMap.contents state id).awaiting key := mem_filter.mpr ⟨member, own⟩
  rw [good.contents id] at held
  match at_ : phase id, held with
  | .awaiting other stored, held =>
    simp only [Phase.contents] at held
    by_cases same : key = other
    · rw [if_pos same, mem_singleton] at held
      rw [same, held]
    · rw [if_neg same] at held
      cases held

theorem Invariant.onward (good : Invariant state ghost) (quiescent : state.Quiescent) {key : Key}
    (pending : Marked state key ∧ ¬ Ready state key ∧ ¬ Failed state key) :
    ∃ dep, Asks state.getPendingRequests key dep ∧
      Marked state dep ∧ ¬ Ready state dep ∧ ¬ Failed state dep := by
  obtain ⟨marked, unready, unfailed⟩ := pending
  have noTask := quiescent.1
  have noThread := quiescent.2
  have place := good.created.creations key
  match creation : ghost.creation key with
  | .idle => exact absurd marked ((good.created.idle key).mp creation)
  | .enqueuing _ _ | .performing _ _ =>
    rw [creation] at place
    simp [creations, noThread, Creation.contents] at place
  | .queued _ =>
    rw [creation] at place
    simp [creations, noTask, Creation.contents] at place
  | .done =>
    cases good.created.settled key creation with
    | inl ready => exact absurd ready unready
    | inr failed => exact absurd failed unfailed
  | .asking id =>
    obtain ⟨request, made, rfl, caller, unconsumed⟩ := good.created.asking key id creation
    have hasFail : request.hasFail = true := by
      unfold Request.consumerId at caller
      unfold Request.hasFail
      cases consumer : request.consumer with
      | outside _ => simp [consumer] at caller
      | creator _ _ _ => rfl
    have settled := good.progress.settled request made key caller
    cases good.outcome quiescent made hasFail with
    | consumed once =>
      refine absurd ?_ unconsumed
      have calls : consumerCalls state request = (contents state request.id).consumed := rfl
      rw [good.progress.contents, once] at calls
      match at_ : ghost.phase request.id with
      | .consumed => rfl
      | .absent | .running _ | .awaiting _ _ | .queued _ | .dropped _ => simp [at_, Phase.contents] at calls
    | failed _ once =>
      have calls : failureCalls state request = (reported state request.id).called := rfl
      rw [good.progress.reported, once] at calls
      have called : ghost.report request.id = .called := by
        match at_ : ghost.report request.id with
        | .called => rfl
        | .none | .registered _ | .queued => simp [at_, Report.contents] at calls
      cases settled called with
      | inl ready => exact absurd ready unready
      | inr failed => exact absurd failed unfailed
    | waiting _ _ waits =>
      obtain ⟨dep, requested, depUnready, depUnfailed, rest, held⟩ := waits
      have own : advances request.id (Task.whenAllReady request rest) = true := by simp [advances]
      have place := good.progress.awaiting held own
      have recorded := good.progress.recorded request made key dep _ caller place
      rw [noThread] at recorded
      refine ⟨dep, (asks_getPendingRequests state key dep).mpr ⟨?_, by simpa [Ready] using depUnready⟩,
        ?_, depUnready, depUnfailed⟩
      · simpa using recorded
      · have fits := good.progress.fits request made
        rw [place] at fits
        cases fits with
        | awaiting _ _ reached => exact reached.marked dep requested

theorem Invariant.cycle (good : Invariant state ghost) (quiescent : state.Quiescent)
    {request : Request Key Value} (made : request ∈ state.requests) (waits : Waits state request) :
    ∃ cycle, state.detectCycle = some cycle ∧ IsCycle state.getPendingRequests cycle := by
  obtain ⟨key, requested, unready, unfailed, rest, held⟩ := waits
  have own : advances request.id (Task.whenAllReady request rest) = true := by simp [advances]
  have place := good.progress.awaiting held own
  have fits := good.progress.fits request made
  rw [place] at fits
  have marked : Marked state key := by
    cases fits with
    | awaiting _ _ reached => exact reached.marked key requested
  exact detectCycle_isCycle state
    (fun key => Marked state key ∧ ¬ Ready state key ∧ ¬ Failed state key)
    ⟨marked, unready, unfailed⟩ fun _ pending => good.onward quiescent pending

end Quiescence

section Lookup

variable [DecidableEq Key] {state : State Key Value} {phase : Nat → Phase Key Value}
  {report : Nat → Report Key} {creation : Key → Creation Key Value}

section

variable (good : Progress state phase report)
include good

variable {id : Nat}

theorem Progress.thread {thread : Thread Key Value} (member : thread ∈ state.threads)
    (own : serves id thread = true) : phase id = .running thread := by
  have held : thread ∈ (AsyncMap.contents state id).threads := mem_filter.mpr ⟨member, own⟩
  rw [good.contents id] at held
  match at_ : phase id, held with
  | .running _, held => rw [mem_singleton.mp held]

theorem Progress.task {task : Task Key Value} (member : task ∈ state.queue)
    (own : advances id task = true) : phase id = .queued task := by
  have held : task ∈ (AsyncMap.contents state id).queue := mem_filter.mpr ⟨member, own⟩
  rw [good.contents id] at held
  match at_ : phase id, held with
  | .queued _, held => rw [mem_singleton.mp held]

theorem Progress.failing {request : Request Key Value} (member : .fail request ∈ state.queue) :
    report request.id = .queued := by
  have held : 0 < (AsyncMap.reported state request.id).queue :=
    List.countP_pos_iff.mpr ⟨_, member, by simp [reports]⟩
  rw [good.reported] at held
  match at_ : report request.id, held with
  | .queued, _ => rfl

theorem Progress.made (present : phase id ≠ .absent ∨ report id ≠ .none) :
    ∃ request ∈ state.requests, request.id = id := by
  by_cases inside : id < state.requests.length
  · exact ⟨state.requests[id], List.getElem_mem inside,
      good.numbered id _ (List.getElem?_eq_getElem inside)⟩
  · obtain ⟨noPhase, noReport⟩ := good.absent id (Nat.le_of_not_lt inside)
    cases present with
    | inl present => exact absurd noPhase present
    | inr present => exact absurd noReport present

theorem Progress.unique {request other : Request Key Value} (made : request ∈ state.requests)
    (made' : other ∈ state.requests) (same : request.id = other.id) : request = other := by
  obtain ⟨index, found⟩ := List.mem_iff_getElem?.mp made
  obtain ⟨index', found'⟩ := List.mem_iff_getElem?.mp made'
  have first := good.numbered index request found
  have second := good.numbered index' other found'
  rw [first, second] at same
  rw [same, found'] at found
  exact (some.inj found).symm

end

variable {key : Key} {loggers : List Key}

theorem Created.perform (good : Created state phase creation)
    {behaviour : Behaviour Key Value} (member : .perform key loggers behaviour ∈ state.threads) :
    creation key = .performing loggers behaviour := by
  have held : .perform key loggers behaviour ∈ (AsyncMap.creations state key).threads :=
    mem_filter.mpr ⟨member, by simp [creates]⟩
  rw [good.creations key] at held
  match at_ : creation key, held with
  | .enqueuing _ _, held => simp [Creation.contents] at held
  | .performing _ _, held =>
    cases mem_singleton.mp held
    rfl

theorem Created.enqueue (good : Created state phase creation) {rest : List Key}
    {request : Request Key Value} (member : .enqueue request key rest ∈ state.threads) :
    creation key = .enqueuing request rest := by
  have held : .enqueue request key rest ∈ (AsyncMap.creations state key).threads :=
    mem_filter.mpr ⟨member, by simp [creates]⟩
  rw [good.creations key] at held
  match at_ : creation key, held with
  | .enqueuing _ _, held =>
    cases mem_singleton.mp held
    rfl
  | .performing _ _, held => simp [Creation.contents] at held

theorem Created.process (good : Created state phase creation)
    (member : .process key loggers ∈ state.queue) : creation key = .queued loggers := by
  have held : .process key loggers ∈ (AsyncMap.creations state key).queue :=
    mem_filter.mpr ⟨member, by simp [starts]⟩
  rw [good.creations key] at held
  match at_ : creation key, held with
  | .queued _, held =>
    cases mem_singleton.mp held
    rfl

end Lookup

end Jst.Verif.AsyncMap
