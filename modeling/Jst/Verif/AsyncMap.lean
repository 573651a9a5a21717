import Jst.Data.Runs
import Jst.Verif.AsyncMap.Tasks
/-!
# Runs of the asynchronous map consumer

The invariant holds in all runs, whatever the creators do and in whatever order the tasks are run.
From it follows what a request can have come to when nothing is left to do, and that the requests
that still wait form a cycle.
-/
namespace Jst.Verif.AsyncMap

open Multithreading Runs CycleDetection

variable {Key Value : Type}

section Runs

variable [DecidableEq Key] {state next : State Key Value} {ghost : Ghost Key Value}
  {creator : Key → Behaviour Key Value}

theorem Invariant.start : Invariant (State.start : State Key Value)
    ⟨fun _ => .absent, fun _ => .none, fun _ => .idle⟩ := by
  refine ⟨⟨?_, ?_, ?_⟩, ?_, ?_⟩
  · intro key ready
    cases ready
  · intro key task member
    cases member
  · intro key task member
    cases member
  · exact {
      contents := fun _ => rfl
      reported := fun _ => rfl
      fits := fun _ made => by cases made
      absent := fun _ _ => ⟨rfl, rfl⟩
      numbered := fun _ _ found => by cases found
      failures := fun _ held => by
        cases held with
        | inl queued => cases queued
        | inr stored =>
          obtain ⟨_, member⟩ := stored
          cases member
      recorded := fun _ made => by cases made
      values := fun _ _ event => by cases event
      settled := fun _ made => by cases made }
  · exact {
      creations := fun _ => rfl
      idle := fun _ => iff_of_true rfl (by simp [Marked, State.start, Node.fresh])
      ready := fun _ ready => by cases ready
      settled := fun _ done => by cases done
      asking := fun _ _ asking => by cases asking
      asks := fun _ made => by cases made }

theorem Invariant.advance (good : Invariant state ghost) {before after : List (Thread Key Value)}
    {thread : Thread Key Value} (threads : state.threads = before ++ thread :: after) :
    ∃ ghost, Invariant ({ state with threads := before ++ after }.advance thread) ghost := by
  match thread with
  | .ensure request [] => exact good.ensure_nil threads
  | .ensure request (key :: rest) =>
    simp only [State.advance, Node.getAndMarkQueuedToBeProcessed]
    by_cases marked : (state.nodes key).queued = true
    · simp only [marked, ↓reduceIte]
      have same : ({ state.nodes key with queued := true } : Node Value (Task Key Value)) =
          state.nodes key := by
        rw [← marked]
      rw [same]
      simp only [State.setNode, update_eq_self]
      exact good.ensure_marked threads marked
    · simp only [marked]
      exact good.ensure_unmarked threads marked
  | .enqueue request key rest => exact good.enqueue threads
  | .onFailure request [] =>
    obtain ⟨_, _, _, -, -, fits⟩ := good.progress.runs request threads (by simp [serves])
    cases fits
  | .onFailure request (key :: rest) => exact good.onFailure threads
  | .onFailureLocked request [] =>
    obtain ⟨_, _, _, -, -, fits⟩ := good.progress.runs request threads (by simp [serves])
    cases fits
  | .onFailureLocked request (key :: rest) =>
    simp only [State.advance, Node.queueOnFailure]
    split
    · next failed =>
      simp only [State.setNode, update_eq_self]
      exact good.onFailure_failed threads failed
    · next unfailed =>
      simp only [State.queueTasks, State.setNode, append_nil]
      exact good.onFailure_registered threads unfailed
  | .await request [] =>
    obtain ⟨_, _, _, -, -, fits⟩ := good.progress.runs request threads (by simp [serves])
    cases fits
  | .await request (key :: rest) =>
    simp only [State.advance]
    split
    · next isReady =>
      obtain ⟨made, listed, there, -, place, fits⟩ :=
        good.progress.runs request threads (by simp [serves])
      cases fits with
      | await _ _ reached _ registered =>
        exact good.ready threads ⟨fun _ => rfl, fun _ => rfl, by simp⟩ listed reached
          (place ▸ registered) isReady
    · exact good.await_unready threads
  | .awaitLocked request [] =>
    obtain ⟨_, _, _, -, -, fits⟩ := good.progress.runs request threads (by simp [serves])
    cases fits
  | .awaitLocked request (key :: rest) =>
    obtain ⟨made, listed, there, -, place, fits⟩ :=
      good.progress.runs request threads (by simp [serves])
    cases fits with
    | awaitLocked _ _ reached _ registered =>
      have served : Serves request (.awaitLocked request (key :: rest)) :=
        ⟨fun _ => rfl, fun _ => rfl, by simp⟩
      simp only [State.advance, Node.addOrQueueAwaitingTask]
      split
      · next failed =>
        obtain ⟨later, good'⟩ :=
          good.dropped threads served listed reached (place ▸ registered) failed
        simp only [State.setNode, update_eq_self, State.queueTasks, append_nil, State.recordUnless]
        split
        · exact ⟨later, good'.go ⟨fun _ => rfl, fun _ => rfl⟩⟩
        · exact ⟨later, good'⟩
      · next unfailed =>
        split
        · next isReady =>
          obtain ⟨later, good'⟩ :=
            good.ready threads served listed reached (place ▸ registered) isReady
          simp only [State.setNode, update_eq_self, State.recordUnless, if_true]
          split
          · exact ⟨later, good'⟩
          · exact ⟨later, good'⟩
        · next unready =>
          simp only [State.queueTasks, append_nil]
          exact good.awaits threads unready unfailed
  | .record consumerId node => exact ⟨ghost, good.record threads⟩
  | .perform key loggers (.setter value) => exact good.setter threads
  | .perform key loggers .fatal => exact good.fatal threads
  | .perform key loggers (.subcaller keys continuation) => exact good.subcaller threads
  | .log [] => exact ⟨ghost, good.stop threads ⟨fun _ => rfl, fun _ => rfl⟩ (by simp)⟩
  | .log (key :: rest) => exact good.log_cons threads

theorem Invariant.step (good : ∃ ghost, Invariant state ghost) (step : Step creator state next) :
    ∃ ghost, Invariant next ghost := by
  obtain ⟨ghost, good⟩ := good
  cases step with
  | request keys hasFail => exact good.requested keys hasFail
  | run before after task queue =>
    match task with
    | .process key loggers => exact good.process queue (creator key)
    | .whenAllReady request [] => exact good.whenAllReady_nil queue
    | .whenAllReady request (key :: rest) => exact good.whenAllReady_cons queue
    | .consume request => exact good.consume queue creator
    | .fail request => exact good.fail queue creator
  | advance before after thread threads => exact good.advance threads
  | drop before after loggers threads =>
    exact ⟨ghost, good.stop threads ⟨fun _ => rfl, fun _ => rfl⟩ (by simp)⟩

/-- In every run, a value creator is called at most once for its key, and a consumer gets the values
of its keys in their order. When nothing is left to do, each request with a failure function has
been consumed once, or has failed once with one of its keys, or waits for a key that is neither set
nor failed; and if a request waits, a cycle is found. -/
theorem requests_settled (creator : Key → Behaviour Key Value) {state : State Key Value}
    (run : Reaches (Step creator) State.start state) :
    (∀ key, state.events.countP (isCreated key) ≤ 1) ∧
      (∀ request values, .consumed request values ∈ state.events →
        state.values request.keys = some values) ∧
      (state.Quiescent →
        (∀ request ∈ state.requests, request.hasFail = true → Outcome state request) ∧
          ∀ request ∈ state.requests, Waits state request →
            ∃ cycle, state.detectCycle = some cycle ∧ IsCycle state.getPendingRequests cycle) := by
  obtain ⟨ghost, good⟩ := @invariant (State Key Value) (Step creator)
    (fun state => ∃ ghost, Invariant state ghost) _ _ ⟨_, Invariant.start⟩
    (fun good step => Invariant.step good step) run
  refine ⟨fun key => ?_, good.progress.values, fun quiescent => ⟨?_, ?_⟩⟩
  · have calls : state.events.countP (isCreated key) = (creations state key).created := rfl
    rw [calls, good.created.creations]
    cases ghost.creation key <;> simp [Creation.contents]
  · exact fun request made hasFail => good.outcome quiescent made hasFail
  · exact fun request made waits => good.cycle quiescent made waits

/-- One thread does everything, and takes a task only when it has nothing else to do. -/
def runAlone (creator : Key → Behaviour Key Value) (state : State Key Value) : State Key Value :=
  match state.threads, state.queue with
  | thread :: rest, _ => { state with threads := rest }.advance thread
  | [], task :: rest => { state with queue := rest }.run creator task
  | [], [] => state

theorem reaches_runAlone (creator : Key → Behaviour Key Value) (count : Nat)
    (state : State Key Value) : Reaches (Step creator) state ((runAlone creator)^[count] state) := by
  induction count generalizing state with
  | zero => exact .refl
  | succ count step =>
    rw [Function.iterate_succ_apply]
    refine Relation.ReflTransGen.trans ?_ (step (runAlone creator state))
    unfold runAlone
    split
    · next thread rest threads => exact .single (.advance state [] rest thread threads)
    · next task rest _ queue => exact .single (.run state [] rest task queue)
    · exact .refl

/-- The creators of two keys ask for each other. -/
def circular (key : Bool) : Behaviour Bool Nat := .subcaller [!key] fun _ => .fatal

/-- One of two keys whose creators ask for each other is requested. -/
def deadlock : State Bool Nat :=
  (runAlone circular)^[27] (State.start.consumeAfterKeysReady [true] (.outside true))

theorem deadlock_settled : deadlock.Quiescent ∧
    (∀ request ∈ deadlock.requests, request.hasFail = true → Outcome deadlock request) ∧
    ∃ cycle, deadlock.detectCycle = some cycle ∧ IsCycle deadlock.getPendingRequests cycle := by
  have quiescent : deadlock.Quiescent := ⟨rfl, rfl⟩
  have run : Reaches (Step circular) State.start deadlock :=
    .trans (.single (.request State.start [true] true)) (reaches_runAlone circular 27 _)
  obtain ⟨outcomes, cycles⟩ := (requests_settled circular run).2.2 quiescent
  refine ⟨quiescent, outcomes, ?_⟩
  have first : deadlock.requests.head? = some { id := 0, keys := [true], consumer := .outside true } :=
    rfl
  refine cycles _ (List.mem_of_head? first) ⟨true, by simp, false_ne_true, false_ne_true, [], ?_⟩
  exact List.mem_of_head? rfl

end Runs

end Jst.Verif.AsyncMap
