import Jst.Data.Bytes
/-!
# Nodes of an asynchronous map

`AsyncMapNode` holds the value of a key, once it is set, and the tasks that wait for the value or
for the failure of the node. What is done under the lock of a node is one function here; the check
without the lock that may come before it is `isReady`. Each function also yields the tasks that are
given to the task system.
-/
namespace Jst.Multithreading

/-- `AsyncMapNode`. -/
structure Node (Value Task : Type) where
  value : Option Value
  failed : Bool
  /-- `is_queued_to_be_processed_`. -/
  queued : Bool
  awaitingTasks : List Task
  failureTasks : List Task

namespace Node

variable {Value Task : Type}

/-- The node of a new key. -/
def fresh : Node Value Task where
  value := none
  failed := false
  queued := false
  awaitingTasks := []
  failureTasks := []

variable (node : Node Value Task)

def isReady : Bool := node.value.isSome

def setAndQueueAwaitingTasks (value : Value) : Node Value Task × List Task :=
  if node.failed then (node, [])
  else
    ({ node with value := some value, awaitingTasks := [], failureTasks := [] }, node.awaitingTasks)

def getAndMarkQueuedToBeProcessed : Bool × Node Value Task :=
  (node.queued, { node with queued := true })

/-- `AddOrQueueAwaitingTask` under the lock; whether the task was queued comes last. -/
def addOrQueueAwaitingTask (task : Task) : Node Value Task × List Task × Bool :=
  if node.failed then (node, [], false)
  else if node.isReady then (node, [task], true)
  else ({ node with awaitingTasks := node.awaitingTasks ++ [task] }, [], false)

/-- `QueueOnFailure` under the lock. -/
def queueOnFailure (task : Task) : Node Value Task × List Task :=
  if node.failed then (node, [task])
  else ({ node with failureTasks := node.failureTasks ++ [task] }, [])

def fail : Node Value Task × List Task :=
  if node.isReady then (node, [])
  else if node.failed then (node, [])
  else
    ({ node with failed := true, awaitingTasks := [], failureTasks := [] }, node.failureTasks)

end Node

end Jst.Multithreading
