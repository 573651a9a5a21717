import Mathlib.Data.List.Dedup
import Mathlib.Logic.Function.Basic
import Jst.Data.Grouping
import Jst.Multithreading.AsyncMapNode
/-!
# The asynchronous map consumer

`AsyncMapConsumer` computes the values of keys, each at most once, by tasks that run in any number
of threads. A step is what a thread does under one lock or by one atomic access, so every
interleaving of the threads is a run of the steps. A task system may start its tasks in any order.
The requests that threads record for themselves are one list here, as only all of them together are
ever read.
-/
namespace Jst.Multithreading

/-- What an invocation of a value creator, or of a continuation that it handed on, ends in. -/
inductive Behaviour (Key Value : Type) where
  | setter (value : Value)
  | fatal
  | subcaller (keys : List Key) (continuation : List Value → Behaviour Key Value)

/-- Who is to get the values of a request. A fatal message that is logged for a creator goes on to
loggers of other creators, each of which fails the node of its creator. -/
inductive Consumer (Key Value : Type) where
  /-- A consumer from outside of the map, with a failure function or without one. -/
  | outside (hasFail : Bool)
  | creator (key : Key) (loggers : List Key) (continuation : List Value → Behaviour Key Value)

/-- A call of `ConsumeAfterKeysReady`. The identifier tells the calls apart. -/
structure Request (Key Value : Type) where
  id : Nat
  keys : List Key
  consumer : Consumer Key Value

/-- The `consumer_id` of a request. -/
def Request.consumerId {Key Value : Type} (request : Request Key Value) : Option Key :=
  match request.consumer with
  | .outside _ => none
  | .creator key _ _ => some key

/-- A request comes with a failure function; that of a sub-caller always does. -/
def Request.hasFail {Key Value : Type} (request : Request Key Value) : Bool :=
  match request.consumer with
  | .outside hasFail => hasFail
  | .creator _ _ _ => true

/-- The nodes that the logger of a request may fail. -/
def Request.loggers {Key Value : Type} (request : Request Key Value) : List Key :=
  match request.consumer with
  | .outside _ => []
  | .creator key loggers _ => key :: loggers

/-- What is given to the task system. -/
inductive Task (Key Value : Type) where
  | process (key : Key) (loggers : List Key)
  /-- `QueueTaskWhenAllReady` for the nodes from the current position on. -/
  | whenAllReady (request : Request Key Value) (rest : List Key)
  | consume (request : Request Key Value)
  | fail (request : Request Key Value)

/-- Where a thread is in what it does. -/
inductive Thread (Key Value : Type) where
  /-- `EnsureValuesEventuallyPresent`, with the keys that are left. -/
  | ensure (request : Request Key Value) (rest : List Key)
  /-- `QueueOnceProcessingTask`, after the node of a key has been marked. -/
  | enqueue (request : Request Key Value) (key : Key) (rest : List Key)
  /-- `QueueOnFailure` of the first of the nodes that are left. -/
  | onFailure (request : Request Key Value) (rest : List Key)
  /-- `QueueOnFailure`, after the check without the lock. -/
  | onFailureLocked (request : Request Key Value) (rest : List Key)
  /-- `AddOrQueueAwaitingTask` of the first of the nodes that are left. -/
  | await (request : Request Key Value) (rest : List Key)
  /-- `AddOrQueueAwaitingTask`, after the check without the lock. -/
  | awaitLocked (request : Request Key Value) (rest : List Key)
  /-- `RecordNodeRequest`. -/
  | record (consumerId node : Key)
  | perform (key : Key) (loggers : List Key) (behaviour : Behaviour Key Value)
  | log (loggers : List Key)

/-- What is observed from outside. -/
inductive Event (Key Value : Type) where
  | created (key : Key)
  | consumed (request : Request Key Value) (values : List Value)
  | failed (request : Request Key Value)

/-- The state of a map, of its task system and of the threads. -/
structure State (Key Value : Type) where
  /-- `map_`; a key that has not been asked for has a fresh node. -/
  nodes : Key → Node Value (Task Key Value)
  queue : List (Task Key Value)
  threads : List (Thread Key Value)
  requests : List (Request Key Value)
  /-- `requests_by_thread_`: a caller and a node that it asked for. -/
  nodeRequests : List (Key × Key)
  events : List (Event Key Value)

namespace State

variable {Key Value : Type} [DecidableEq Key]

/-- A map before the first request. -/
def start : State Key Value where
  nodes := fun _ => Node.fresh
  queue := []
  threads := []
  requests := []
  nodeRequests := []
  events := []

variable (state : State Key Value)

/-- `TaskSystem::QueueTask`. -/
def queueTasks (tasks : List (Task Key Value)) : State Key Value :=
  { state with queue := state.queue ++ tasks }

/-- A thread goes on. -/
def go (thread : Thread Key Value) : State Key Value :=
  { state with threads := state.threads ++ [thread] }

/-- Something happens. -/
def log (event : Event Key Value) : State Key Value :=
  { state with events := state.events ++ [event] }

/-- Replace the node of a key. -/
def setNode (key : Key) (node : Node Value (Task Key Value)) : State Key Value :=
  { state with nodes := update state.nodes key node }

/-- `AsyncMapNode::Fail` of the node of a key. -/
def failNode (key : Key) : State Key Value :=
  let (node, tasks) := (state.nodes key).fail
  (state.setNode key node).queueTasks tasks

def consumeAfterKeysReady (keys : List Key) (consumer : Consumer Key Value) : State Key Value :=
  let request : Request Key Value :=
    { id := state.requests.length, keys := keys, consumer := consumer }
  let state := { state with requests := state.requests ++ [request] }
  if keys = [] then state.queueTasks [.consume request]
  else state.go (.ensure request keys)

/-- `RecordNodeRequest` follows, unless the task was queued or the request comes from outside. -/
def recordUnless (queued : Bool) (request : Request Key Value) (node : Key) : State Key Value :=
  match request.consumerId with
  | some consumerId => if queued then state else state.go (.record consumerId node)
  | none => state

/-- `GetValue` of the nodes of a request. -/
def values (keys : List Key) : Option (List Value) := keys.mapM fun key => (state.nodes key).value

variable (creator : Key → Behaviour Key Value)

/-- A thread starts with a task. -/
def run : Task Key Value → State Key Value
  | .process key loggers => (state.log (.created key)).go (.perform key loggers (creator key))
  | .whenAllReady request [] => state.queueTasks [.consume request]
  | .whenAllReady request (key :: rest) => state.go (.onFailure request (key :: rest))
  | .consume request =>
    match state.values request.keys with
    | none => state
    | some values =>
      let state := state.log (.consumed request values)
      match request.consumer with
      | .outside _ => state
      | .creator key loggers continuation => state.go (.perform key loggers (continuation values))
  | .fail request =>
    let state := state.log (.failed request)
    match request.consumer with
    | .outside _ => state
    | .creator key _ _ => state.failNode key

/-- A thread goes one step on. -/
def advance : Thread Key Value → State Key Value
  | .ensure request [] => state.go (.onFailure request request.keys)
  | .ensure request (key :: rest) =>
    let (queued, node) := (state.nodes key).getAndMarkQueuedToBeProcessed
    let state := state.setNode key node
    if queued then state.go (.ensure request rest) else state.go (.enqueue request key rest)
  | .enqueue request key rest =>
    (state.queueTasks [.process key request.loggers]).go (.ensure request rest)
  | .onFailure _ [] => state
  | .onFailure request (key :: rest) =>
    if request.hasFail ∧ ¬ (state.nodes key).isReady then
      state.go (.onFailureLocked request (key :: rest))
    else state.go (.await request (key :: rest))
  | .onFailureLocked _ [] => state
  | .onFailureLocked request (key :: rest) =>
    let (node, tasks) := (state.nodes key).queueOnFailure (.fail request)
    ((state.setNode key node).queueTasks tasks).go (.await request (key :: rest))
  | .await _ [] => state
  | .await request (key :: rest) =>
    if (state.nodes key).isReady then state.queueTasks [.whenAllReady request rest]
    else state.go (.awaitLocked request (key :: rest))
  | .awaitLocked _ [] => state
  | .awaitLocked request (key :: rest) =>
    let (node, tasks, queued) :=
      (state.nodes key).addOrQueueAwaitingTask (.whenAllReady request rest)
    ((state.setNode key node).queueTasks tasks).recordUnless queued request key
  | .record consumerId node =>
    { state with nodeRequests := state.nodeRequests ++ [(consumerId, node)] }
  | .perform key _ (.setter value) =>
    let (node, tasks) := (state.nodes key).setAndQueueAwaitingTasks value
    (state.setNode key node).queueTasks tasks
  | .perform key loggers .fatal => (state.failNode key).go (.log loggers)
  | .perform key loggers (.subcaller keys continuation) =>
    state.consumeAfterKeysReady keys (.creator key loggers continuation)
  | .log [] => state
  | .log (key :: rest) => (state.failNode key).go (.log rest)

/-- No task is queued or running. -/
def Quiescent : Prop := state.queue = [] ∧ state.threads = []

end State

/-- The steps of a map with a value creator. -/
inductive Step {Key Value : Type} [DecidableEq Key] (creator : Key → Behaviour Key Value) :
    State Key Value → State Key Value → Prop where
  | request (state : State Key Value) (keys : List Key) (hasFail : Bool) :
    Step creator state (state.consumeAfterKeysReady keys (.outside hasFail))
  | run (state : State Key Value) (before after : List (Task Key Value)) (task : Task Key Value)
      (queue : state.queue = before ++ task :: after) :
    Step creator state ({ state with queue := before ++ after }.run creator task)
  | advance (state : State Key Value) (before after : List (Thread Key Value))
      (thread : Thread Key Value) (threads : state.threads = before ++ thread :: after) :
    Step creator state ({ state with threads := before ++ after }.advance thread)
  | drop (state : State Key Value) (before after : List (Thread Key Value)) (loggers : List Key)
      (threads : state.threads = before ++ .log loggers :: after) :
    Step creator state { state with threads := before ++ after }

section Cycles

variable {Key Value : Type} [DecidableEq Key]

/-- `NodeRequests` — the nodes that each caller asked for. -/
abbrev NodeRequests (Key : Type) := List (Key × List Key)

/-- `GetPendingRequests`, without the nodes that are ready by now. -/
def State.getPendingRequests (state : State Key Value) : NodeRequests Key :=
  (Grouping.group state.nodeRequests).map fun (consumerId, nodes) =>
    (consumerId, nodes.dedup.filter fun node => !(state.nodes node).isReady)

/-- The loop of `DetectCycleForCaller` over the nodes that a caller asked for; the calls so far end
with the caller. A node among the calls closes a cycle. -/
def visitDeps (visit : List Key → Key → Option (List Key) × List Key) (calls : List Key) :
    (deps known : List Key) → Option (List Key) × List Key
  | [], known => (none, known)
  | dep :: rest, known =>
    if dep ∈ calls then (some (calls ++ [dep]), known)
    else
      match visit known dep with
      | (some cycle, known) => (some cycle, known)
      | (none, known) => visitDeps visit calls rest known

/-- `DetectCycleForCaller` — the call order of a cycle, and the callers that are known to lead to
none. Each call goes one caller deeper; the depth is limited here. -/
def detectCycleForCaller (requests : NodeRequests Key) : (depth : Nat) → (calls known : List Key) →
    (caller : Key) → Option (List Key) × List Key
  | 0, _, known, _ => (none, known)
  | depth + 1, calls, known, caller =>
    if caller ∈ known then (none, known)
    else
      match requests.lookup caller with
      | none => (none, caller :: known)
      | some deps =>
        let calls := calls ++ [caller]
        match visitDeps (detectCycleForCaller requests depth calls) calls deps known with
        | (some cycle, known) => (some cycle, known)
        | (none, known) => (none, caller :: known)

/-- The loop of `DetectCycle` over the callers. -/
def detectCycleFrom (requests : NodeRequests Key) :
    (callers known : List Key) → Option (List Key)
  | [], _ => none
  | caller :: rest, known =>
    match detectCycleForCaller requests (requests.length + 1) [] known caller with
    | (some cycle, _) => some cycle
    | (none, known) => detectCycleFrom requests rest known

def State.detectCycle (state : State Key Value) : Option (List Key) :=
  let requests := state.getPendingRequests
  detectCycleFrom requests (requests.map fst) []

end Cycles

end Jst.Multithreading
