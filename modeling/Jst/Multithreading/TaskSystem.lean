import Mathlib.Algebra.Group.Nat.Defs
import Mathlib.Data.Multiset.Count
import Mathlib.Logic.Function.Basic
/-!
# The task system

Every worker thread owns a queue and takes tasks from its own and from all other queues. A counter
of the total workload tells when everything is done. `exec` is one atomic step of a thread: one
change of the counter, together with the change of a queue that is made under the same lock, or the
loading of a flag. A lock that is held between steps is that of the queue of a worker that has been
woken.
-/
namespace Jst.Multithreading.TaskSystem

/-- The code of a task or of a caller from outside, as the calls to the task system that it makes.
-/
inductive Code where
  | finish
  /-- It calls `QueueTask` for a task. -/
  | queue (task rest : Code)
  /-- It calls `Shutdown`. -/
  | shutdown (rest : Code)
deriving DecidableEq

/-- Code that is being run: that of the task with a number, or that of a caller from outside. -/
structure Frame where
  ticket : Option Nat
  rest : Code
deriving DecidableEq

/-- Where a thread is. -/
inductive Point where
  /-- The thread has left `Run`, or the caller has returned. -/
  | finished
  /-- `Run`, before it loads `shutdown_`. -/
  | loop
  /-- `Run`, before the `try_pop` with a number. -/
  | tryPop (attempt : Nat)
  /-- `pop`, before it takes the lock. -/
  | pop
  /-- `pop`, waiting. -/
  | blocked
  /-- `pop`, notified, before it takes the lock again. -/
  | awake
  /-- `pop`, holding the lock behind the wait and the increment. -/
  | woken
  /-- `Run`, before it loads `shutdown_` with a task in its hand. -/
  | got (ticket : Nat) (task : Code)
  | body (frame : Frame)
  /-- `QueueTask`, before the `try_push` with a number. -/
  | tryPush (idx attempt : Nat) (task : Code) (frame : Frame)
  /-- `push`, behind the increment and before it takes the lock. -/
  | announced (idx : Nat) (task : Code) (frame : Frame)
  /-- `push` or `try_push`, before `notify_one`. -/
  | notify (queue : Nat) (frame : Frame)
  /-- `Shutdown`, before `done` of a queue takes the lock. -/
  | closing (queue : Nat) (frame : Frame)
  /-- `done`, before `notify_all`. -/
  | closed (queue : Nat) (frame : Frame)
deriving DecidableEq

/-- The queues, the counter and the flags, and where the threads are. Which tasks were removed from
a queue and executed is recorded. -/
structure State where
  /-- `queues_`: the tasks with their numbers. -/
  queues : Nat → List (Nat × Code)
  /-- `done_` of each queue. -/
  done : Nat → Bool
  /-- `total_workload_`, as a mathematical integer. -/
  counter : Int
  /-- `index_`, as the number of calls of `QueueTask` so far. -/
  index : Nat
  shutdown : Bool
  /-- Where the threads are: first the workers, then the callers from outside. -/
  points : Nat → Point
  /-- The thread and the number of every task that was removed from a queue. -/
  removed : List (Nat × Nat)
  executed : List Nat

/-- `kNumberOfAttempts`. -/
def numberOfAttempts : Nat := 5

def threadCount (numberOfThreads : Nat) : Nat := max 1 numberOfThreads

/-- `(idx + i) % thread_count_`, in `std::size_t`. -/
def slot (n idx attempt : Nat) : Nat := (idx % 2 ^ 64 + attempt) % 2 ^ 64 % n

/-- All workers are about to run, and the callers about to call. -/
def start (n : Nat) (callers : List Code) : State where
  queues := fun _ => []
  done := fun _ => false
  counter := n
  index := 0
  shutdown := false
  points thread :=
    if thread < n then .loop
    else
      match callers[thread - n]? with
      | some code => .body ⟨none, code⟩
      | none => .finished
  removed := []
  executed := []

/-- The lock of a queue is held between two steps. -/
def State.held (state : State) (queue : Nat) : Bool := state.points queue = .woken

/-- What a step does to the shared data. -/
inductive Access where
  | load
  /-- The first task is removed from a queue, and the counter decremented. -/
  | take (queue ticket : Nat)
  | block
  | wake
  /-- `index_` is incremented. -/
  | draw
  | tryPush (queue ticket : Nat) (task : Code)
  | announce
  | push (queue ticket : Nat) (task : Code)
  | notify (queue : Nat)
  | complete (ticket : Nat)
  /-- `shutdown_` is set. -/
  | shutdown
  /-- `done_` of a queue is set. -/
  | close (queue : Nat)
deriving DecidableEq

/-- What makes a thread take a step: it goes on, the lock it tries to take is not free, or it wakes
up without having been notified. -/
inductive Event where
  | go
  | busy
  | spurious
deriving DecidableEq

/-- Code is run until it makes its next call or returns. -/
def run (state : State) (frame : Frame) : Access × Point :=
  match frame.rest with
  | .queue task rest => (.draw, .tryPush state.index 0 task ⟨frame.ticket, rest⟩)
  | .shutdown rest => (.shutdown, .closing 0 ⟨frame.ticket, rest⟩)
  | .finish =>
    match frame.ticket with
    | some ticket => (.complete ticket, .loop)
    | none => (.load, .finished)

/-- One atomic step of a thread: what it does to the shared data and where it goes. There is none if
the thread has finished, waits, or needs a lock that is held. -/
def exec (n : Nat) (state : State) (thread : Nat) (event : Event) : Option (Access × Point) :=
  match state.points thread, event with
  | .loop, .go => some (.load, if state.shutdown then .finished else .tryPop 0)
  | .tryPop attempt, .go =>
    if attempt < n then
      let queue := (thread + attempt) % n
      if state.held queue then some (.load, .tryPop (attempt + 1))
      else
        match state.queues queue with
        | (ticket, task) :: _ => some (.take queue ticket, .got ticket task)
        | [] => some (.load, .tryPop (attempt + 1))
    else some (.load, .pop)
  | .tryPop attempt, .busy =>
    if attempt < n then some (.load, .tryPop (attempt + 1)) else none
  | .pop, .go =>
    let queue := thread % n
    if state.held queue then none
    else
      match state.queues queue with
      | (ticket, task) :: _ => some (.take queue ticket, .got ticket task)
      | [] => if state.done queue then some (.load, .finished) else some (.block, .blocked)
  | .blocked, .spurious =>
    let queue := thread % n
    if state.queues queue ≠ [] ∨ state.done queue then some (.wake, .woken) else none
  | .awake, .go =>
    let queue := thread % n
    if state.queues queue ≠ [] ∨ state.done queue then some (.wake, .woken)
    else some (.load, .blocked)
  | .woken, .go =>
    let queue := thread % n
    match state.queues queue with
    | (ticket, task) :: _ => some (.take queue ticket, .got ticket task)
    | [] => some (.load, .finished)
  | .got ticket task, .go =>
    some (.load, if state.shutdown then .finished else .body ⟨some ticket, task⟩)
  | .body frame, .go => some (run state frame)
  | .tryPush idx attempt task frame, .go =>
    if attempt < n * numberOfAttempts then
      let queue := slot n idx attempt
      if state.held queue then some (.load, .tryPush idx (attempt + 1) task frame)
      else some (.tryPush queue idx task, .notify queue frame)
    else some (.announce, .announced idx task frame)
  | .tryPush idx attempt task frame, .busy =>
    if attempt < n * numberOfAttempts then some (.load, .tryPush idx (attempt + 1) task frame)
    else none
  | .announced idx task frame, .go =>
    let queue := slot n idx 0
    if state.held queue then none else some (.push queue idx task, .notify queue frame)
  | .notify queue frame, .go => some (.notify queue, .body frame)
  | .closing queue frame, .go =>
    if queue < n then
      if state.held queue then none else some (.close queue, .closed queue frame)
    else some (.load, .body frame)
  | .closed queue frame, .go => some (.notify queue, .closing (queue + 1) frame)
  | _, _ => none

/-- The shared data behind a step of a thread. -/
def State.access (state : State) (thread : Nat) : Access → State
  | .load => state
  | .take queue ticket =>
    { state with
      queues := Function.update state.queues queue (state.queues queue).tail
      counter := state.counter - 1
      removed := (thread, ticket) :: state.removed }
  | .block => { state with counter := state.counter - 1 }
  | .wake => { state with counter := state.counter + 1 }
  | .draw => { state with index := state.index + 1 }
  | .tryPush queue ticket task =>
    { state with
      queues := Function.update state.queues queue (state.queues queue ++ [(ticket, task)])
      counter := state.counter + 1 }
  | .announce => { state with counter := state.counter + 1 }
  | .push queue ticket task =>
    { state with
      queues := Function.update state.queues queue (state.queues queue ++ [(ticket, task)]) }
  | .notify queue =>
    if state.points queue = .blocked then
      { state with points := Function.update state.points queue .awake }
    else state
  | .complete ticket => { state with executed := ticket :: state.executed }
  | .shutdown => { state with shutdown := true }
  | .close queue => { state with done := Function.update state.done queue true }

/-- The state behind a step of a thread. -/
def State.move (state : State) (thread : Nat) (access : Access) (point : Point) : State :=
  let state := state.access thread access
  { state with points := Function.update state.points thread point }

/-- Some thread takes a step. -/
def Step (n : Nat) (state next : State) : Prop :=
  ∃ thread event access point, exec n state thread event = some (access, point) ∧
    next = state.move thread access point

end Jst.Multithreading.TaskSystem
