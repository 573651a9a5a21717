import Mathlib.Logic.Function.Basic
import Mathlib.Logic.Relation
import Mathlib.Data.Multiset.Count
/-!
# The traverser of the action graph

The graph is bipartite: an artifact node has the action that builds it as its only child, an action
node has the artifacts it depends on as children and its outputs as parents. The traverser runs
tasks on it concurrently. `exec` is one atomic step of the code of a task: each step makes one
access to one of the shared atomics, or one call of the runner, and says what the task does next and
which tasks it queues. A `Step` lets any task that is not finished make its next atomic step, so
every interleaving of every number of threads is a run.
-/
namespace Jst.Graph

/-- A node of the dependency graph. -/
inductive Node (Action Artifact : Type) where
  /-- `DependencyGraph::ActionNode`. -/
  | action (action : Action)
  /-- `DependencyGraph::ArtifactNode`. -/
  | artifact (artifact : Artifact)
deriving DecidableEq

/-- `DependencyGraph` after linking. An action node has its dependencies, with repetition, as
`Children()` and its outputs as `Parents()`; an artifact node has its builder as `Children()` and
the actions that depend on it, as often as they do, as `Parents()`. -/
structure DependencyGraph (Action Artifact : Type) [DecidableEq Action] [DecidableEq Artifact] where
  /-- Whether `ArtifactNodeWithId` finds a node. -/
  hasArtifactNode : Artifact → Bool
  /-- `ArtifactNode::BuilderActionNode`. -/
  builder : Artifact → Option Action
  /-- `ArtifactNode::Parents`. -/
  consumers : Artifact → List Action
  /-- `ActionNode::Children`. -/
  dependencies : Action → List Artifact
  /-- `ActionNode::Parents`. -/
  outputs : Action → List Artifact
  /-- `LinkNodePointers` links an output with its builder in both directions. -/
  built : ∀ action artifact, artifact ∈ outputs action ↔ builder artifact = some action
  /-- `AddBuilderActionNode` refuses a second builder of one output. -/
  outputOnce : ∀ action, (outputs action).Nodup
  /-- `LinkNodePointers` links every dependency in both directions. -/
  consumed : ∀ action artifact,
    (consumers artifact).count action = (dependencies action).count artifact

/-- One atomic step in the code of the traverser. -/
inductive Op (Action Artifact : Type) where
  /-- `Traverse` before the next of the remaining targets. -/
  | traverse (targets : List Artifact)
  /-- `QueueVisit` before it loads `failed_`. -/
  | queueVisit (node : Node Action Artifact)
  /-- `QueueVisit` before `GetAndMarkDiscovered`. -/
  | discover (node : Node Action Artifact)
  /-- `Visit` before `MarkRequired`. -/
  | visit (node : Node Action Artifact)
  /-- `Visit(ArtifactNode)` before `IsAvailable`. -/
  | checkAvailable (artifact : Artifact)
  /-- The loop of `Visit(ActionNode)` before `IsAvailable` of a dependency. -/
  | visitDependency (artifact : Artifact)
  /-- `Visit(ActionNode)` before `IsReady`. -/
  | checkReady (action : Action)
  /-- `QueueProcessing` before it loads `failed_`. -/
  | queueProcessing (node : Node Action Artifact)
  /-- `QueueProcessing` before `IsRequired`. -/
  | checkRequired (node : Node Action Artifact)
  /-- `QueueProcessing` before `GetAndMarkQueuedToBeProcessed`. -/
  | markQueued (node : Node Action Artifact)
  /-- The queued task before `runner_.Process` starts. -/
  | process (node : Node Action Artifact)
  /-- The queued task before `runner_.Process` returns. -/
  | finish (node : Node Action Artifact)
  /-- `NotifyAvailable(ArtifactNode)` before `MakeAvailable`. -/
  | makeAvailable (artifact : Artifact)
  /-- The loop of `NotifyAvailable(ArtifactNode)` before `NotifyAvailableDepAndCheckReady`. -/
  | notifyConsumer (action : Action)
  /-- `Abort` before it stores `failed_`. -/
  | abort
deriving DecidableEq

/-- The shared state: the traversal states of all nodes, the failure flag, and the nodes that
`runner_.Process` has been called with, the latest first. -/
structure Memory (Action Artifact : Type) where
  /-- `has_been_discovered_`. -/
  discovered : Node Action Artifact → Bool
  /-- `is_required_`. -/
  required : Node Action Artifact → Bool
  /-- `is_queued_to_be_processed_`. -/
  queued : Node Action Artifact → Bool
  /-- `unavailable_deps_`, as a mathematical integer. -/
  unavailable : Action → Int
  /-- `is_available_`. -/
  available : Artifact → Bool
  /-- `*failed_`. -/
  failed : Bool
  /-- The calls of `runner_.Process` so far. -/
  processed : List (Node Action Artifact)

/-- What an atomic step does: the new shared state, the steps its task makes next, and the first
steps of the tasks it queues. -/
structure Effect (Action Artifact : Type) where
  memory : Memory Action Artifact
  next : List (Op Action Artifact)
  /-- The tasks given to `QueueTask`. -/
  tasks : List (Op Action Artifact)

variable {Action Artifact : Type} [DecidableEq Action] [DecidableEq Artifact]

/-- The shared state before the traversal: `NotifyDoneLinking` has set every counter. -/
def initialMemory (graph : DependencyGraph Action Artifact) : Memory Action Artifact where
  discovered := fun _ => false
  required := fun _ => false
  queued := fun _ => false
  unavailable action := (graph.dependencies action).length
  available := fun _ => false
  failed := false
  processed := []

/-- The effect of one atomic step; `success` is what `runner_.Process` returns. -/
def exec (graph : DependencyGraph Action Artifact) (success : Bool)
    (memory : Memory Action Artifact) : Op Action Artifact → Effect Action Artifact
  | .traverse [] => ⟨memory, [], []⟩
  | .traverse (target :: targets) =>
    if graph.hasArtifactNode target then
      ⟨memory, [.queueVisit (.artifact target), .traverse targets], []⟩
    else ⟨memory, [.abort], []⟩
  | .queueVisit node =>
    if memory.failed then ⟨memory, [], []⟩ else ⟨memory, [.discover node], []⟩
  | .discover node =>
    ⟨{ memory with discovered := Function.update memory.discovered node true }, [],
      if memory.discovered node then [] else [.visit node]⟩
  | .visit (.artifact artifact) =>
    ⟨{ memory with required := Function.update memory.required (.artifact artifact) true },
      [.checkAvailable artifact], []⟩
  | .visit (.action action) =>
    ⟨{ memory with required := Function.update memory.required (.action action) true },
      (graph.dependencies action).map .visitDependency ++ [.checkReady action], []⟩
  | .checkAvailable artifact =>
    if memory.available artifact then ⟨memory, [], []⟩
    else match graph.builder artifact with
      | some action => ⟨memory, [.queueVisit (.action action)], []⟩
      | none => ⟨memory, [.queueProcessing (.artifact artifact)], []⟩
  | .visitDependency artifact =>
    if memory.available artifact then ⟨memory, [], []⟩
    else ⟨memory, [.queueVisit (.artifact artifact)], []⟩
  | .checkReady action =>
    if memory.unavailable action = 0 then ⟨memory, [.queueProcessing (.action action)], []⟩
    else ⟨memory, [], []⟩
  | .queueProcessing node =>
    if memory.failed then ⟨memory, [], []⟩ else ⟨memory, [.checkRequired node], []⟩
  | .checkRequired node =>
    if memory.required node then ⟨memory, [.markQueued node], []⟩ else ⟨memory, [], []⟩
  | .markQueued node =>
    ⟨{ memory with queued := Function.update memory.queued node true }, [],
      if memory.queued node then [] else [.process node]⟩
  | .process node => ⟨{ memory with processed := node :: memory.processed }, [.finish node], []⟩
  | .finish node =>
    if success then
      match node with
      | .action action => ⟨memory, (graph.outputs action).map .makeAvailable, []⟩
      | .artifact artifact => ⟨memory, [.makeAvailable artifact], []⟩
    else ⟨memory, [.abort], []⟩
  | .makeAvailable artifact =>
    ⟨{ memory with available := Function.update memory.available artifact true },
      (graph.consumers artifact).map .notifyConsumer, []⟩
  | .notifyConsumer action =>
    ⟨{ memory with
        unavailable := Function.update memory.unavailable action (memory.unavailable action - 1) },
      if memory.unavailable action = 1 then [.queueProcessing (.action action)] else [], []⟩
  | .abort => ⟨{ memory with failed := true }, [], []⟩

theorem exec_processed (graph : DependencyGraph Action Artifact) (success : Bool)
    (memory : Memory Action Artifact) (op : Op Action Artifact) :
    (exec graph success memory op).memory.processed = match op with
      | .process node => node :: memory.processed | _ => memory.processed := by
  fun_cases exec graph success memory op <;> rfl

/-- The shared state and, for every task that was queued and for the main thread, the code it has
left to run. -/
structure State (Action Artifact : Type) where
  memory : Memory Action Artifact
  tasks : List (List (Op Action Artifact))

/-- The main thread is about to call `Traverse`. -/
def start (graph : DependencyGraph Action Artifact) (targets : List Artifact) :
    State Action Artifact := ⟨initialMemory graph, [[.traverse targets]]⟩

/-- No task has code left to run. -/
def State.Idle (state : State Action Artifact) : Prop := ∀ task ∈ state.tasks, task = []

instance (state : State Action Artifact) : Decidable state.Idle :=
  inferInstanceAs (Decidable (∀ task ∈ state.tasks, task = []))

/-- Some task makes its next atomic step. `runner` tells which results `runner_.Process` may
return for a node. -/
inductive Step (graph : DependencyGraph Action Artifact)
    (runner : Node Action Artifact → Bool → Prop) :
    State Action Artifact → State Action Artifact → Prop where
  | run {memory : Memory Action Artifact} {before after : List (List (Op Action Artifact))}
      {op : Op Action Artifact} {rest : List (Op Action Artifact)} {success : Bool}
      (outcome : ∀ node, op = .finish node → runner node success) :
      Step graph runner ⟨memory, before ++ (op :: rest) :: after⟩
        ⟨(exec graph success memory op).memory,
          before ++ ((exec graph success memory op).next ++ rest) :: after ++
            (exec graph success memory op).tasks.map fun first => [first]⟩

/-- The states that some interleaving of the tasks reaches. -/
def Reachable (graph : DependencyGraph Action Artifact)
    (runner : Node Action Artifact → Bool → Prop) (targets : List Artifact) :
    State Action Artifact → Prop :=
  Relation.ReflTransGen (Step graph runner) (start graph targets)

/-- The first task with code left to run: the tasks before it, its next step, the rest of its
code, and the tasks after it. -/
def firstTask : List (List (Op Action Artifact)) →
    Option (List (List (Op Action Artifact)) × Op Action Artifact × List (Op Action Artifact) ×
      List (List (Op Action Artifact)))
  | [] => none
  | [] :: tasks =>
    (firstTask tasks).map fun (before, op, rest, after) => ([] :: before, op, rest, after)
  | (op :: rest) :: tasks => some ([], op, rest, tasks)

/-- The run of a single thread that serves the tasks in order, for a number of steps. -/
def serve (graph : DependencyGraph Action Artifact) :
    Nat → State Action Artifact → State Action Artifact
  | 0, state => state
  | steps + 1, state =>
    match firstTask state.tasks with
    | none => state
    | some (before, op, rest, after) =>
      let effect := exec graph true state.memory op
      serve graph steps ⟨effect.memory, before ++ (effect.next ++ rest) :: after ++
        effect.tasks.map fun first => [first]⟩

omit [DecidableEq Action] [DecidableEq Artifact] in
theorem firstTask_spec {tasks before after : List (List (Op Action Artifact))}
    {op : Op Action Artifact} {rest : List (Op Action Artifact)}
    (found : firstTask tasks = some (before, op, rest, after)) :
    tasks = before ++ (op :: rest) :: after := by
  induction tasks generalizing before with
  | nil => simp [firstTask] at found
  | cons task tasks step =>
    cases task with
    | nil =>
      simp only [firstTask, Option.map_eq_some_iff] at found
      obtain ⟨⟨inner, op', rest', after'⟩, deeper, same⟩ := found
      cases same
      rw [step deeper]
      rfl
    | cons first later =>
      simp only [firstTask, Option.some.injEq, Prod.mk.injEq] at found
      obtain ⟨rfl, rfl, rfl, rfl⟩ := found
      rfl

theorem serve_reachable {graph : DependencyGraph Action Artifact} {targets : List Artifact}
    (steps : Nat) (state : State Action Artifact)
    (reached : Reachable graph (fun _ success => success = true) targets state) :
    Reachable graph (fun _ success => success = true) targets (serve graph steps state) := by
  induction steps generalizing state with
  | zero => exact reached
  | succ steps step =>
    rw [serve]
    split
    · exact reached
    · next before op rest after found =>
      have here : state = ⟨state.memory, before ++ (op :: rest) :: after⟩ := by
        rw [← firstTask_spec found]
      refine step _ (Relation.ReflTransGen.tail reached ?_)
      conv_lhs => rw [here]
      exact Step.run fun _ _ => rfl

/-- The dependency closure of the requested artifacts. -/
inductive Closure (graph : DependencyGraph Action Artifact) (targets : List Artifact) :
    Node Action Artifact → Prop where
  | target {artifact : Artifact} (requested : artifact ∈ targets) :
      Closure graph targets (.artifact artifact)
  | builder {artifact : Artifact} {action : Action}
      (needed : Closure graph targets (.artifact artifact))
      (builds : graph.builder artifact = some action) : Closure graph targets (.action action)
  | dependency {artifact : Artifact} {action : Action}
      (needed : Closure graph targets (.action action))
      (depends : artifact ∈ graph.dependencies action) : Closure graph targets (.artifact artifact)

/-- One action has to be built for another. -/
def Needs (graph : DependencyGraph Action Artifact) (required action : Action) : Prop :=
  ∃ artifact ∈ graph.dependencies action, graph.builder artifact = some required

/-- No action needs itself, directly or through others. -/
def DependencyGraph.Acyclic (graph : DependencyGraph Action Artifact) : Prop :=
  ∀ action, ¬ Relation.TransGen (Needs graph) action action

end Jst.Graph
