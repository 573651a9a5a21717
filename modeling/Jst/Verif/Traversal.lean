import Mathlib.Data.Fintype.Card
import Mathlib.Tactic.Common
import Mathlib.Tactic.Abel
import Mathlib.Algebra.Order.Group.Multiset
import Jst.Graph.Traverser
/-!
# No lost and no double wake-up

The invariants speak about the bag of all atomic steps that the tasks have left to run (`work`), not
about the order inside a task, so they hold for every interleaving. `Safe` counts: every node is
processed at most once, and the counter of an action is the number of its dependencies that are not
available plus the notifications still under way. `Live` follows a wake-up from hand to hand: as
long as a needed node is not done, some step that is left will bring it forward.
-/
namespace Jst.Verif.Traversal

open Jst.Graph
open Multiset (coe_add coe_count count_add count_cons count_zero mem_coe notMem_zero)

variable {Action Artifact : Type} [DecidableEq Action] [DecidableEq Artifact]
  {graph : DependencyGraph Action Artifact} {memory : Memory Action Artifact}

variable {node : Node Action Artifact} {artifact : Artifact} {new : Op Action Artifact}
  {action : Action}

/-- The bag of steps left to run. -/
abbrev Work (Action Artifact : Type) := Multiset (Op Action Artifact)

/-- The steps that the tasks of a state have left to run. -/
def work (state : State Action Artifact) : Work Action Artifact := (state.tasks.flatten : Multiset _)

/-- The steps an effect adds. -/
def added (effect : Effect Action Artifact) : List (Op Action Artifact) :=
  effect.next ++ effect.tasks

/-- The node whose processing a step is on the way to or in the middle of. -/
def processing : Op Action Artifact → Option (Node Action Artifact)
  | .queueProcessing node | .checkRequired node | .markQueued node | .process node
  | .finish node => some node
  | _ => none

/-- The node that makes an artifact available: its builder, or itself for a leaf. -/
def producer (graph : DependencyGraph Action Artifact) (artifact : Artifact) :
    Node Action Artifact :=
  match graph.builder artifact with
  | some action => .action action
  | none => .artifact artifact

omit [DecidableEq Action] [DecidableEq Artifact] in
theorem work_run {memory memory' : Memory Action Artifact}
    {before after : List (List (Op Action Artifact))} {op : Op Action Artifact}
    {rest : List (Op Action Artifact)} (effect : Effect Action Artifact) :
    work ⟨memory, before ++ (op :: rest) :: after⟩ =
      op ::ₘ ((before.flatten ++ rest ++ after.flatten : List _) : Work Action Artifact) ∧
    work ⟨memory', before ++ (effect.next ++ rest) :: after ++
        effect.tasks.map fun first => [first]⟩ = (added effect : Work Action Artifact) +
        ((before.flatten ++ rest ++ after.flatten : List _) : Work Action Artifact) := by
  constructor
  · simp only [work, List.flatten_append, List.flatten_cons, List.cons_append,
      List.append_assoc, ← Multiset.cons_coe, ← coe_add]
    simp only [Multiset.add_cons]
  · have singles : ∀ tasks : List (Op Action Artifact),
        (tasks.map fun first => [first]).flatten = tasks := by
      intro tasks
      induction tasks with
      | nil => rfl
      | cons first tasks step => simp [step]
    simp only [work, added, List.flatten_append, List.flatten_cons, singles, List.append_assoc,
      ← coe_add]
    abel

theorem work_step {runner : Node Action Artifact → Bool → Prop}
    {before after : State Action Artifact} (step : Step graph runner before after) :
    ∃ op success rest, (∀ node, op = .finish node → runner node success) ∧
      after.memory = (exec graph success before.memory op).memory ∧ work before = op ::ₘ rest ∧
      work after = (added (exec graph success before.memory op) : Multiset _) + rest := by
  obtain @⟨memory, before, after, op, rest, success, outcome⟩ := step
  obtain ⟨taken, left⟩ := work_run (exec graph success memory op)
  exact ⟨op, success, _, outcome, rfl, taken, left⟩

section Frames

variable {success : Bool} {op : Op Action Artifact}

theorem count_map_other {Source : Type} (list : List Source) (make : Source → Op Action Artifact)
    (other : Op Action Artifact) (differ : ∀ source, make source ≠ other) :
    (list.map make).count other = 0 :=
  List.count_eq_zero.mpr (by simp [differ])

theorem exec_discovered (node : Node Action Artifact) :
    (exec graph success memory op).memory.discovered node =
      (memory.discovered node || decide (op = .discover node)) := by
  fun_cases exec graph success memory op <;> grind

theorem exec_required (node : Node Action Artifact) :
    (exec graph success memory op).memory.required node =
      (memory.required node || decide (op = .visit node)) := by
  fun_cases exec graph success memory op <;> grind

theorem exec_queued (node : Node Action Artifact) :
    (exec graph success memory op).memory.queued node =
      (memory.queued node || decide (op = .markQueued node)) := by
  fun_cases exec graph success memory op <;> grind

theorem exec_unavailable (action : Action) :
    (exec graph success memory op).memory.unavailable action =
      memory.unavailable action - if op = .notifyConsumer action then 1 else 0 := by
  fun_cases exec graph success memory op <;> (simp [Function.update_apply]; try grind)

theorem exec_available (artifact : Artifact) :
    (exec graph success memory op).memory.available artifact =
      (memory.available artifact || decide (op = .makeAvailable artifact)) := by
  fun_cases exec graph success memory op <;> grind

theorem exec_failed :
    (exec graph success memory op).memory.failed = (memory.failed || decide (op = .abort)) := by
  fun_cases exec graph success memory op <;> grind

theorem count_process (node : Node Action Artifact) :
    (added (exec graph success memory op)).count (.process node) =
      if op = .markQueued node ∧ memory.queued node = false then 1 else 0 := by
  fun_cases exec graph success memory op <;> simp [added, count_map_other] <;> grind

theorem count_finish (node : Node Action Artifact) :
    (added (exec graph success memory op)).count (.finish node) =
      if op = .process node then 1 else 0 := by
  fun_cases exec graph success memory op <;> simp [added, count_map_other] <;> grind

theorem count_makeAvailable (artifact : Artifact) :
    (added (exec graph success memory op)).count (.makeAvailable artifact) = match op with
      | .finish (.action action) => if success then (graph.outputs action).count artifact else 0
      | .finish (.artifact leaf) => if success ∧ leaf = artifact then 1 else 0 | _ => 0 := by
  have outputs : ∀ list : List Artifact,
      (list.map (@Op.makeAvailable Action Artifact)).count (.makeAvailable artifact) =
        list.count artifact :=
    fun list => List.count_map_of_injective list _ (fun _ _ => by simp) artifact
  fun_cases exec graph success memory op <;> simp [added, outputs, count_map_other] <;> grind

theorem count_notifyConsumer (action : Action) :
    (added (exec graph success memory op)).count (.notifyConsumer action) = match op with
      | .makeAvailable artifact => (graph.consumers artifact).count action | _ => 0 := by
  have consumers : ∀ list : List Action,
      (list.map (@Op.notifyConsumer Action Artifact)).count (.notifyConsumer action) =
        list.count action :=
    fun list => List.count_map_of_injective list _ (fun _ _ => by simp) action
  fun_cases exec graph success memory op <;> simp [added, consumers, count_map_other] <;> grind

theorem processing_added (member : new ∈ added (exec graph success memory op))
    (way : processing new = some node) : processing op = some node ∨
    (∃ action, node = .action action ∧ (op = .checkReady action ∧ memory.unavailable action = 0 ∨
      op = .notifyConsumer action ∧ memory.unavailable action = 1)) ∨
    (∃ artifact, node = .artifact artifact ∧ op = .checkAvailable artifact ∧
      graph.builder artifact = none) := by
  revert member
  fun_cases exec graph success memory op <;> grind [added, processing]

end Frames

/-- The counting invariants, which hold whether or not processing fails. -/
structure Safe (graph : DependencyGraph Action Artifact) (memory : Memory Action Artifact)
    (work : Work Action Artifact) : Prop where
  once : ∀ node, work.count (.process node) + memory.processed.count node =
    (memory.queued node).toNat
  counter : ∀ action, memory.unavailable action =
    ((graph.dependencies action).countP (fun artifact => !memory.available artifact) +
      work.count (.notifyConsumer action) : Nat)
  ready : ∀ op ∈ work, ∀ action, processing op = some (.action action) →
    memory.unavailable action = 0
  readyProcessed : ∀ action, .action action ∈ memory.processed → memory.unavailable action = 0
  leaf : ∀ op ∈ work, ∀ artifact, processing op = some (.artifact artifact) →
    graph.builder artifact = none
  produced : ∀ artifact, work.count (.makeAvailable artifact) + (memory.available artifact).toNat +
    work.count (.finish (producer graph artifact)) ≤
      memory.processed.count (producer graph artifact)

theorem safe_start (graph : DependencyGraph Action Artifact) (targets : List Artifact) :
    Safe graph (start graph targets).memory (work (start graph targets)) := by
  constructor <;> simp [start, initialMemory, work, processing]

section SafeStep

variable {success : Bool} {op : Op Action Artifact} {rest : Work Action Artifact}

theorem once_exec (safe : Safe graph memory (op ::ₘ rest)) (node : Node Action Artifact) :
    ((added (exec graph success memory op) : Work Action Artifact) + rest).count (.process node) +
      (exec graph success memory op).memory.processed.count node =
    ((exec graph success memory op).memory.queued node).toNat := by
  have before := safe.once node
  rw [count_add, coe_count, count_process, exec_queued, exec_processed]
  rw [count_cons] at before
  grind

theorem missing_makeAvailable (safe : Safe graph memory (.makeAvailable artifact ::ₘ rest)) :
    memory.available artifact = false := by
  have once := safe.once (producer graph artifact)
  have produced := safe.produced artifact
  have bound := Bool.toNat_le (memory.queued (producer graph artifact))
  rw [Multiset.count_cons_self] at produced
  cases available : memory.available artifact with
  | false => rfl
  | true =>
    rw [available, Bool.toNat_true] at produced
    omega

theorem countP_makeAvailable (list : List Artifact) (available : Artifact → Bool)
    (artifact : Artifact) (missing : available artifact = false) :
    list.countP (fun other => !(available other || decide (artifact = other))) +
      list.count artifact = list.countP fun other => !available other := by
  induction list with
  | nil => rfl
  | cons head list step =>
    simp only [List.countP_cons, List.count_cons]
    grind

theorem counter_exec (safe : Safe graph memory (op ::ₘ rest)) (action : Action) :
    (exec graph success memory op).memory.unavailable action = ((graph.dependencies action).countP
          (fun artifact => !(exec graph success memory op).memory.available artifact) +
        ((added (exec graph success memory op) : Work Action Artifact) + rest).count
          (.notifyConsumer action) : Nat) := by
  have before := safe.counter action
  rw [count_add, coe_count, count_notifyConsumer, exec_unavailable]
  simp only [exec_available]
  rw [count_cons] at before
  cases op with
  | makeAvailable artifact =>
    have consumed := graph.consumed action artifact
    have fewer := countP_makeAvailable (graph.dependencies action) memory.available artifact
      (missing_makeAvailable safe)
    simp only [Op.makeAvailable.injEq, reduceCtorEq, if_false] at before ⊢
    omega
  | notifyConsumer other =>
    simp only [Op.notifyConsumer.injEq, reduceCtorEq, decide_false, Bool.or_false] at before ⊢
    split at before <;> grind
  | _ => simpa using before

theorem unavailable_exec (safe : Safe graph memory (op ::ₘ rest))
    (zero : memory.unavailable action = 0) :
    (exec graph success memory op).memory.unavailable action = 0 := by
  have counter := safe.counter action
  rw [exec_unavailable, zero]
  rw [zero, count_cons] at counter
  grind

theorem ready_exec (safe : Safe graph memory (op ::ₘ rest))
    (member : new ∈ (added (exec graph success memory op) : Work Action Artifact) + rest)
    (way : processing new = some (.action action)) :
    (exec graph success memory op).memory.unavailable action = 0 := by
  rcases Multiset.mem_add.mp member with fresh | left
  · rcases processing_added (mem_coe.mp fresh) way with
      same | ⟨other, same, ⟨-, zero⟩ | ⟨rfl, one⟩⟩ | ⟨_, absurd, -⟩
    · exact unavailable_exec safe (safe.ready op (Multiset.mem_cons_self op rest) action same)
    · cases same
      exact unavailable_exec safe zero
    · cases same
      rw [exec_unavailable, one]
      simp
    · cases absurd
  · exact unavailable_exec safe (safe.ready new (Multiset.mem_cons_of_mem left) action way)

theorem readyProcessed_exec (safe : Safe graph memory (op ::ₘ rest))
    (member : .action action ∈ (exec graph success memory op).memory.processed) :
    (exec graph success memory op).memory.unavailable action = 0 := by
  refine unavailable_exec safe ?_
  rw [exec_processed] at member
  split at member
  · next node =>
    rcases List.mem_cons.mp member with rfl | earlier
    · exact safe.ready _ (Multiset.mem_cons_self _ rest) action rfl
    · exact safe.readyProcessed action earlier
  · exact safe.readyProcessed action member

theorem leaf_exec (safe : Safe graph memory (op ::ₘ rest))
    (member : new ∈ (added (exec graph success memory op) : Work Action Artifact) + rest)
    (way : processing new = some (.artifact artifact)) : graph.builder artifact = none := by
  rcases Multiset.mem_add.mp member with fresh | left
  · rcases processing_added (mem_coe.mp fresh) way with
      same | ⟨_, absurd, -⟩ | ⟨other, same, -, none⟩
    · exact safe.leaf op (Multiset.mem_cons_self op rest) artifact same
    · cases absurd
    · cases same
      exact none
  · exact safe.leaf new (Multiset.mem_cons_of_mem left) artifact way

theorem count_outputs (safe : Safe graph memory (op ::ₘ rest)) (artifact : Artifact) :
    (added (exec graph success memory op)).count (.makeAvailable artifact) =
      if op = .finish (producer graph artifact) ∧ success then 1 else 0 := by
  rw [count_makeAvailable]
  split
  · next action =>
    have built := graph.built action artifact
    have once := List.nodup_iff_count_le_one.mp (graph.outputOnce action) artifact
    have present := List.count_pos_iff (a := artifact) (l := graph.outputs action)
    unfold producer
    cases builder : graph.builder artifact <;> grind
  · next leaf =>
    have unbuilt := safe.leaf _ (Multiset.mem_cons_self _ rest) leaf rfl
    unfold producer
    cases builder : graph.builder artifact <;> grind
  · next noAction noArtifact =>
    cases same : producer graph artifact <;> grind

theorem produced_exec (success : Bool) (safe : Safe graph memory (op ::ₘ rest))
    (artifact : Artifact) :
    ((added (exec graph success memory op) : Work Action Artifact) + rest).count
        (.makeAvailable artifact) +
      ((exec graph success memory op).memory.available artifact).toNat +
      ((added (exec graph success memory op) : Work Action Artifact) + rest).count
        (.finish (producer graph artifact)) +
      (if op = .finish (producer graph artifact) ∧ success = false then 1 else 0) +
      memory.processed.count (producer graph artifact) =
    (op ::ₘ rest).count (.makeAvailable artifact) + (memory.available artifact).toNat +
      (op ::ₘ rest).count (.finish (producer graph artifact)) +
      (exec graph success memory op).memory.processed.count (producer graph artifact) := by
  rw [count_add, count_add, coe_count, coe_count,
    count_outputs safe, count_finish, exec_available, exec_processed, count_cons, count_cons]
  cases op with
  | makeAvailable other =>
    by_cases same : other = artifact
    · subst same
      rw [missing_makeAvailable safe]
      simp
    · simp [same, Ne.symm same]
  | process node => 
    simp [List.count_cons]
    grind
  | finish node => 
    cases success <;> simp <;> grind
  | _ => simp

theorem safe_exec (success : Bool) (safe : Safe graph memory (op ::ₘ rest)) :
    Safe graph (exec graph success memory op).memory
      ((added (exec graph success memory op) : Work Action Artifact) + rest) where
  once := once_exec safe
  counter := counter_exec safe
  ready := fun _ member _ way => ready_exec safe member way
  readyProcessed := fun _ member => readyProcessed_exec safe member
  leaf := fun _ member _ way => leaf_exec safe member way
  produced := by
    intro artifact
    have before := safe.produced artifact
    have change := produced_exec success safe artifact
    omega

end SafeStep

/-- A visit of the node is on its way, or it has been queued. -/
def Discovering (memory : Memory Action Artifact) (work : Work Action Artifact)
    (node : Node Action Artifact) : Prop :=
  .queueVisit node ∈ work ∨ .discover node ∈ work ∨ memory.discovered node = true

/-- The processing of the node is on its way, or it has been queued. -/
def Processing (memory : Memory Action Artifact) (work : Work Action Artifact)
    (node : Node Action Artifact) : Prop :=
  .queueProcessing node ∈ work ∨ .checkRequired node ∈ work ∨ .markQueued node ∈ work ∨
    memory.queued node = true

/-- What hands a wake-up on while no processing fails. -/
structure Live (graph : DependencyGraph Action Artifact) (targets : List Artifact)
    (memory : Memory Action Artifact) (work : Work Action Artifact) : Prop where
  clear : memory.failed = false ∧ .abort ∉ work
  known : ∀ list, .traverse list ∈ work → ∀ target ∈ list, graph.hasArtifactNode target = true
  target : ∀ target ∈ targets, (∃ list, .traverse list ∈ work ∧ target ∈ list) ∨
    Discovering memory work (.artifact target)
  discovered : ∀ node, memory.discovered node = true →
    .visit node ∈ work ∨ memory.required node = true
  dependencies : ∀ action, memory.required (.action action) = true →
    ∀ artifact ∈ graph.dependencies action, .visitDependency artifact ∈ work ∨
      memory.available artifact = true ∨ Discovering memory work (.artifact artifact)
  waiting : ∀ action, memory.required (.action action) = true → memory.unavailable action = 0 →
    .checkReady action ∈ work ∨ Processing memory work (.action action)
  artifact : ∀ artifact, memory.required (.artifact artifact) = true →
    .checkAvailable artifact ∈ work ∨ memory.available artifact = true ∨
      (∀ action, graph.builder artifact = some action → Discovering memory work (.action action)) ∧
      (graph.builder artifact = none → Processing memory work (.artifact artifact))
  produced : ∀ artifact, work.count (.makeAvailable artifact) + (memory.available artifact).toNat +
    work.count (.finish (producer graph artifact)) =
      memory.processed.count (producer graph artifact)

theorem live_start (graph : DependencyGraph Action Artifact) (targets : List Artifact)
    (known : ∀ target ∈ targets, graph.hasArtifactNode target = true) :
    Live graph targets (start graph targets).memory (work (start graph targets)) := by
  constructor
  case known =>
    intro list member
    have same : list = targets := by simpa [start, work] using member
    exact same ▸ known
  case target =>
    intro target member
    exact .inl ⟨targets, by simp [start, work], member⟩
  all_goals simp [start, initialMemory, work]

section LiveStep

variable {op : Op Action Artifact} {rest : Work Action Artifact} {targets : List Artifact}

/-- The steps left to run after a step. -/
abbrev left (graph : DependencyGraph Action Artifact) (memory : Memory Action Artifact)
    (op : Op Action Artifact) (rest : Work Action Artifact) : Work Action Artifact :=
  (added (exec graph true memory op) : Work Action Artifact) + rest

variable {other : Op Action Artifact}

theorem mem_left_of_ne (member : other ∈ op ::ₘ rest)
    (differ : other ≠ op) : other ∈ left graph memory op rest :=
  Multiset.mem_add.mpr (.inr ((Multiset.mem_cons.mp member).resolve_left differ))

theorem mem_left_of_added
    (member : other ∈ added (exec graph true memory op)) : other ∈ left graph memory op rest :=
  Multiset.mem_add.mpr (.inl (mem_coe.mpr member))

theorem discovering_exec (clear : memory.failed = false)
    (way : Discovering memory (op ::ₘ rest) node) :
    Discovering (exec graph true memory op).memory (left graph memory op rest) node := by
  unfold Discovering
  rw [exec_discovered]
  rcases way with queued | marking | marked
  · by_cases same : .queueVisit node = op
    · subst same
      exact .inr (.inl (mem_left_of_added (by simp [exec, added, clear])))
    · exact .inl (mem_left_of_ne queued same)
  · by_cases same : .discover node = op
    · subst same
      exact .inr (.inr (by simp))
    · exact .inr (.inl (mem_left_of_ne marking same))
  · exact .inr (.inr (by simp [marked]))

theorem processing_exec (clear : memory.failed = false) (required : memory.required node = true)
    (way : Processing memory (op ::ₘ rest) node) :
    Processing (exec graph true memory op).memory (left graph memory op rest) node := by
  unfold Processing
  rw [exec_queued]
  rcases way with queued | checking | marking | marked
  · by_cases same : .queueProcessing node = op
    · subst same
      exact .inr (.inl (mem_left_of_added (by simp [exec, added, clear])))
    · exact .inl (mem_left_of_ne queued same)
  · by_cases same : .checkRequired node = op
    · subst same
      exact .inr (.inr (.inl (mem_left_of_added (by simp [exec, added, required]))))
    · exact .inr (.inl (mem_left_of_ne checking same))
  · by_cases same : .markQueued node = op
    · subst same
      exact .inr (.inr (.inr (by simp)))
    · exact .inr (.inr (.inl (mem_left_of_ne marking same)))
  · exact .inr (.inr (.inr (by simp [marked])))

theorem abort_added (member : .abort ∈ added (exec graph true memory op)) :
    ∃ target list, op = .traverse (target :: list) ∧ graph.hasArtifactNode target = false := by
  revert member
  fun_cases exec graph true memory op <;> grind [added]

theorem traverse_added {list : List Artifact}
    (member : .traverse list ∈ added (exec graph true memory op)) :
    ∃ target, op = .traverse (target :: list) := by
  revert member
  fun_cases exec graph true memory op <;> simp +contextual [added]

theorem clear_exec (live : Live graph targets memory (op ::ₘ rest)) :
    (exec graph true memory op).memory.failed = false ∧ .abort ∉ left graph memory op rest := by
  obtain ⟨running, noAbort⟩ := live.clear
  refine ⟨?_, ?_⟩
  · have other : op ≠ .abort := fun same => noAbort (same ▸ Multiset.mem_cons_self op rest)
    rw [exec_failed, running]
    simp [other]
  · intro member
    rcases Multiset.mem_add.mp member with fresh | old
    · obtain ⟨target, list, rfl, unknown⟩ := abort_added (mem_coe.mp fresh)
      have known := live.known _ (Multiset.mem_cons_self _ rest) target List.mem_cons_self
      simp [known] at unknown
    · exact noAbort (Multiset.mem_cons_of_mem old)

theorem known_exec (live : Live graph targets memory (op ::ₘ rest)) (list : List Artifact)
    (member : .traverse list ∈ left graph memory op rest) (target : Artifact)
    (inside : target ∈ list) : graph.hasArtifactNode target = true := by
  rcases Multiset.mem_add.mp member with fresh | old
  · obtain ⟨head, rfl⟩ := traverse_added (mem_coe.mp fresh)
    exact live.known _ (Multiset.mem_cons_self _ rest) target (List.mem_cons_of_mem _ inside)
  · exact live.known list (Multiset.mem_cons_of_mem old) target inside

theorem target_exec (live : Live graph targets memory (op ::ₘ rest)) (target : Artifact)
    (requested : target ∈ targets) :
    (∃ list, .traverse list ∈ left graph memory op rest ∧ target ∈ list) ∨
      Discovering (exec graph true memory op).memory (left graph memory op rest)
        (.artifact target) := by
  rcases live.target target requested with ⟨list, member, inside⟩ | way
  · by_cases same : .traverse list = op
    · subst same
      cases list with
      | nil => simp at inside
      | cons head list =>
        have known := live.known _ (Multiset.mem_cons_self _ rest) head List.mem_cons_self
        rcases List.mem_cons.mp inside with rfl | later
        · exact .inr (.inl (mem_left_of_added (by simp [exec, added, known])))
        · exact .inl ⟨list, mem_left_of_added (by simp [exec, added, known]), later⟩
    · exact .inl ⟨list, mem_left_of_ne member same, inside⟩
  · exact .inr (discovering_exec live.clear.1 way)

theorem discovered_exec (live : Live graph targets memory (op ::ₘ rest))
    (node : Node Action Artifact)
    (discovered : (exec graph true memory op).memory.discovered node = true) :
    .visit node ∈ left graph memory op rest ∨
      (exec graph true memory op).memory.required node = true := by
  rw [exec_discovered] at discovered
  rw [exec_required]
  by_cases before : memory.discovered node = true
  · rcases live.discovered node before with visiting | required
    · by_cases same : .visit node = op
      · exact .inr (by simp [same])
      · exact .inl (mem_left_of_ne visiting same)
    · exact .inr (by simp [required])
  · have same : op = .discover node := by simpa [before] using discovered
    subst same
    exact .inl (mem_left_of_added (by simp [exec, added, before]))

theorem dependencies_exec (live : Live graph targets memory (op ::ₘ rest)) (action : Action)
    (required : (exec graph true memory op).memory.required (.action action) = true)
    (artifact : Artifact) (depends : artifact ∈ graph.dependencies action) :
    .visitDependency artifact ∈ left graph memory op rest ∨
      (exec graph true memory op).memory.available artifact = true ∨
      Discovering (exec graph true memory op).memory (left graph memory op rest)
        (.artifact artifact) := by
  rw [exec_required] at required
  rw [exec_available]
  by_cases before : memory.required (.action action) = true
  · rcases live.dependencies action before artifact depends with visiting | available | way
    · by_cases same : .visitDependency artifact = op
      · subst same
        cases available : memory.available artifact with
        | true => exact .inr (.inl rfl)
        | false =>
          exact .inr (.inr (.inl (mem_left_of_added (by simp [exec, added, available]))))
      · exact .inl (mem_left_of_ne visiting same)
    · exact .inr (.inl (by simp [available]))
    · exact .inr (.inr (discovering_exec live.clear.1 way))
  · have same : op = .visit (.action action) := by simpa [before] using required
    subst same
    exact .inl (mem_left_of_added (by simp [exec, added, depends]))

theorem waiting_exec (safe : Safe graph memory (op ::ₘ rest))
    (live : Live graph targets memory (op ::ₘ rest)) (action : Action)
    (required : (exec graph true memory op).memory.required (.action action) = true)
    (zero : (exec graph true memory op).memory.unavailable action = 0) :
    .checkReady action ∈ left graph memory op rest ∨
      Processing (exec graph true memory op).memory (left graph memory op rest)
        (.action action) := by
  rw [exec_required] at required
  rw [exec_unavailable] at zero
  by_cases before : memory.required (.action action) = true
  · by_cases ready : memory.unavailable action = 0
    · rcases live.waiting action before ready with checking | way
      · by_cases same : .checkReady action = op
        · subst same
          exact .inr (.inl (mem_left_of_added (by simp [exec, added, ready])))
        · exact .inl (mem_left_of_ne checking same)
      · exact .inr (processing_exec live.clear.1 before way)
    · -- The last dependency has just become available: the notification queues the processing.
      have same : op = .notifyConsumer action := by
        by_contra other
        rw [if_neg other] at zero
        omega
      subst same
      have one : memory.unavailable action = 1 := by
        rw [if_pos rfl] at zero
        omega
      exact .inr (.inl (mem_left_of_added (by simp [exec, added, one])))
  · have same : op = .visit (.action action) := by simpa [before] using required
    subst same
    exact .inl (mem_left_of_added (by simp [exec, added]))

theorem artifact_exec (live : Live graph targets memory (op ::ₘ rest)) (artifact : Artifact)
    (required : (exec graph true memory op).memory.required (.artifact artifact) = true) :
    .checkAvailable artifact ∈ left graph memory op rest ∨
      (exec graph true memory op).memory.available artifact = true ∨
      (∀ action, graph.builder artifact = some action →
        Discovering (exec graph true memory op).memory (left graph memory op rest)
          (.action action)) ∧ (graph.builder artifact = none →
        Processing (exec graph true memory op).memory (left graph memory op rest)
          (.artifact artifact)) := by
  rw [exec_required] at required
  rw [exec_available]
  by_cases before : memory.required (.artifact artifact) = true
  · rcases live.artifact artifact before with checking | available | ⟨built, leaf⟩
    · by_cases same : .checkAvailable artifact = op
      · subst same
        cases available : memory.available artifact with
        | true => exact .inr (.inl rfl)
        | false =>
          refine .inr (.inr ⟨?_, ?_⟩)
          · intro action builder
            exact .inl (mem_left_of_added (by simp [exec, added, available, builder]))
          · intro unbuilt
            exact .inl (mem_left_of_added (by simp [exec, added, available, unbuilt]))
      · exact .inl (mem_left_of_ne checking same)
    · exact .inr (.inl (by simp [available]))
    · exact .inr (.inr ⟨fun action builder => discovering_exec live.clear.1 (built action builder),
        fun unbuilt => processing_exec live.clear.1 before (leaf unbuilt)⟩)
  · have same : op = .visit (.artifact artifact) := by simpa [before] using required
    subst same
    exact .inl (mem_left_of_added (by simp [exec, added]))

theorem live_exec (safe : Safe graph memory (op ::ₘ rest))
    (live : Live graph targets memory (op ::ₘ rest)) :
    Live graph targets (exec graph true memory op).memory (left graph memory op rest) where
  clear := clear_exec live
  known := known_exec live
  target := target_exec live
  discovered := discovered_exec live
  dependencies := dependencies_exec live
  waiting := waiting_exec safe live
  artifact := artifact_exec live
  produced := by
    intro artifact
    have before := live.produced artifact
    have change := produced_exec true safe artifact
    simp only [Bool.true_eq_false, and_false, if_false, Nat.add_zero] at change
    simp only [left]
    omega

end LiveStep

theorem exec_succeeds {op : Op Action Artifact} {success : Bool}
    (succeeded : ∀ node, op = .finish node → success = true) :
    exec graph success memory op = exec graph true memory op := by
  cases op with
  | finish node => rw [succeeded node rfl]
  | traverse list => cases list <;> rfl
  | visit node => cases node <;> rfl
  | _ => rfl

section Runs

variable {runner : Node Action Artifact → Bool → Prop} {targets : List Artifact}
  {state : State Action Artifact}

theorem safe_reachable (reached : Reachable graph runner targets state) :
    Safe graph state.memory (work state) := by
  induction reached with
  | refl => exact safe_start graph targets
  | tail _ step safe =>
    obtain ⟨op, success, rest, -, memory, before, after⟩ := work_step step
    rw [before] at safe
    rw [memory, after]
    exact safe_exec success safe

theorem live_reachable (known : ∀ target ∈ targets, graph.hasArtifactNode target = true)
    (succeeds : ∀ node, ¬ runner node false) (reached : Reachable graph runner targets state) :
    Live graph targets state.memory (work state) := by
  induction reached with
  | refl => exact live_start graph targets known
  | tail run step live =>
    have safe := safe_reachable run
    obtain ⟨op, success, rest, outcome, memory, before, after⟩ := work_step step
    rw [before] at safe live
    have succeeded : ∀ node, op = .finish node → success = true := by
      intro node same
      cases success with
      | true => rfl
      | false => exact absurd (outcome node same) (succeeds node)
    rw [memory, after, exec_succeeds succeeded]
    exact live_exec safe live

omit [DecidableEq Action] [DecidableEq Artifact] in
theorem work_idle (idle : state.Idle) : work state = 0 := by
  have ended : state.tasks.flatten = [] := List.flatten_eq_nil_iff.mpr idle
  rw [work, ended]
  rfl

theorem available_of_step (reached : Reachable graph runner targets state)
    {after : State Action Artifact} (step : Step graph runner state after)
    (fresh : .action action ∉ state.memory.processed)
    (called : .action action ∈ after.memory.processed)
    (depends : artifact ∈ graph.dependencies action) : state.memory.available artifact = true := by
  have safe := safe_reachable reached
  obtain ⟨op, success, rest, -, memory, before, -⟩ := work_step step
  rw [before] at safe
  have way : op = .process (.action action) := by
    rw [memory, exec_processed] at called
    split at called
    · next node =>
      rcases List.mem_cons.mp called with same | earlier
      · rw [same]
      · exact absurd earlier fresh
    · exact absurd called fresh
  have zero := safe.ready op (Multiset.mem_cons_self op rest) action (way ▸ rfl)
  have none : (graph.dependencies action).countP
      (fun artifact => !state.memory.available artifact) = 0 := by
    have counter := safe.counter action
    omega
  simpa using List.countP_eq_zero.mp none artifact depends

end Runs

section Settled

variable {targets : List Artifact}

theorem available_iff_processed (live : Live graph targets memory 0) (artifact : Artifact) :
    memory.available artifact = true ↔ producer graph artifact ∈ memory.processed := by
  have produced := live.produced artifact
  rw [count_zero, count_zero, Nat.zero_add, Nat.add_zero] at produced
  rw [← List.count_pos_iff (a := producer graph artifact), ← produced]
  cases memory.available artifact <;> simp

theorem unavailable_iff (safe : Safe graph memory 0) (action : Action) :
    memory.unavailable action = 0 ↔
      ∀ artifact ∈ graph.dependencies action, memory.available artifact = true := by
  have counter := safe.counter action
  rw [count_zero, Nat.add_zero] at counter
  rw [counter, Nat.cast_eq_zero, List.countP_eq_zero]
  simp

theorem processed_of_processing (safe : Safe graph memory 0) (way : Processing memory 0 node) :
    node ∈ memory.processed := by
  have queued : memory.queued node = true := by simpa [Processing] using way
  have once := safe.once node
  rw [count_zero, queued] at once
  exact List.count_pos_iff.mp (by simp at once; omega)

theorem available_of_discovered (safe : Safe graph memory 0) (live : Live graph targets memory 0)
    (discovered : memory.discovered (.artifact artifact) = true)
    (built : ∀ action, graph.builder artifact = some action →
      memory.required (.action action) = true → .action action ∈ memory.processed) :
    memory.available artifact = true := by
  have required : memory.required (.artifact artifact) = true :=
    (live.discovered _ discovered).resolve_left (notMem_zero _)
  rcases live.artifact artifact required with checking | available | ⟨viaBuilder, viaLeaf⟩
  · exact absurd checking (notMem_zero _)
  · exact available
  · rw [available_iff_processed live]
    unfold producer
    cases builder : graph.builder artifact with
    | none => exact processed_of_processing safe (viaLeaf builder)
    | some action =>
      have found : memory.discovered (.action action) = true := by
        simpa [Discovering] using viaBuilder action builder
      exact built action builder
        ((live.discovered _ found).resolve_left (notMem_zero _))

theorem processed_of_required (ordered : WellFounded (Needs graph)) (safe : Safe graph memory 0)
    (live : Live graph targets memory 0) (action : Action)
    (required : memory.required (.action action) = true) : .action action ∈ memory.processed := by
  induction action using ordered.induction with
  | _ action step =>
    have ready : memory.unavailable action = 0 := by
      refine (unavailable_iff safe action).mpr fun artifact depends => ?_
      rcases live.dependencies action required artifact depends with visiting | available | way
      · exact absurd visiting (notMem_zero _)
      · exact available
      · have discovered : memory.discovered (.artifact artifact) = true := by
          simpa [Discovering] using way
        exact available_of_discovered safe live discovered fun other builder =>
          step other ⟨artifact, depends, builder⟩
    exact processed_of_processing safe
      ((live.waiting action required ready).resolve_left (notMem_zero _))

/-- What is done of a node of the closure in the end. -/
def Done (graph : DependencyGraph Action Artifact) (memory : Memory Action Artifact) :
    Node Action Artifact → Prop
  | .action action => .action action ∈ memory.processed
  | .artifact artifact => memory.available artifact = true ∧
      producer graph artifact ∈ memory.processed

theorem done_of_closure (ordered : WellFounded (Needs graph)) (safe : Safe graph memory 0)
    (live : Live graph targets memory 0) (needed : Closure graph targets node) :
    Done graph memory node := by
  induction needed with
  | @target artifact requested =>
    have discovered : memory.discovered (.artifact artifact) = true := by
      simpa [Discovering] using live.target artifact requested
    have available := available_of_discovered safe live discovered fun action _ =>
      processed_of_required ordered safe live action
    exact ⟨available, (available_iff_processed live artifact).mp available⟩
  | @builder artifact action _ builds step =>
    have processed := step.2
    rwa [producer, builds] at processed
  | @dependency artifact action _ depends step =>
    have available := (unavailable_iff safe action).mp (safe.readyProcessed action step)
      artifact depends
    exact ⟨available, (available_iff_processed live artifact).mp available⟩

end Settled

theorem needs_wellFounded [Finite Action] (acyclic : graph.Acyclic) :
    WellFounded (Needs graph) := by
  have irreflexive : Std.Irrefl (Relation.TransGen (Needs graph)) := ⟨acyclic⟩
  have ordered := Finite.wellFounded_of_trans_of_irrefl (Relation.TransGen (Needs graph))
  exact Subrelation.wf (fun need => Relation.TransGen.single need) ordered

/-- In every run of the traverser on a finite acyclic graph, whatever the interleaving: no node is
processed twice; an action is processed only when the artifacts it depends on are available; and
if processing does not fail, then once no task is pending every action and every leaf of the
closure has been processed and every artifact of it is available. -/
theorem traversal_exact [Finite Action] (graph : DependencyGraph Action Artifact)
    (acyclic : graph.Acyclic) (runner : Node Action Artifact → Bool → Prop)
    (targets : List Artifact) (state : State Action Artifact)
    (reached : Reachable graph runner targets state) :
    state.memory.processed.Nodup ∧
    (∀ after, Step graph runner state after → ∀ action,
      .action action ∉ state.memory.processed → .action action ∈ after.memory.processed →
      ∀ artifact ∈ graph.dependencies action, state.memory.available artifact = true) ∧
    ((∀ target ∈ targets, graph.hasArtifactNode target = true) →
      (∀ node, ¬ runner node false) → state.Idle →
      ∀ node, Closure graph targets node → Done graph state.memory node) := by
  have safe := safe_reachable reached
  refine ⟨?_, ?_, ?_⟩
  · refine List.nodup_iff_count_le_one.mpr fun node => ?_
    have once := safe.once node
    have bound := Bool.toNat_le (state.memory.queued node)
    omega
  · intro after step action fresh called artifact depends
    exact available_of_step reached step fresh called depends
  · intro known succeeds idle node needed
    have live := live_reachable known succeeds reached
    rw [work_idle idle] at safe live
    exact done_of_closure (needs_wellFounded acyclic) safe live needed

/-- An action with the same leaf as two of its inputs, and one output. -/
def twice : DependencyGraph Bool Nat where
  hasArtifactNode artifact := artifact = 0 || artifact = 1
  builder artifact := if artifact = 1 then some true else none
  consumers artifact := if artifact = 0 then [true, true] else []
  dependencies action := if action then [0, 0] else []
  outputs action := if action then [1] else []
  built := by
    intro action artifact
    cases action <;> simp
  outputOnce := by decide
  consumed := by
    intro action artifact
    cases action <;> by_cases leaf : artifact = 0
    · simp [leaf]
    · simp [leaf]
    · simp [leaf]
    · have other : ¬ 0 = artifact := fun same => leaf same.symm
      simp [leaf, other]

theorem twice_acyclic : twice.Acyclic := by
  have noNeed : ∀ required action, ¬ Needs twice required action := by
    rintro required (_ | _) ⟨artifact, depends, builds⟩
    · simp [twice] at depends
    · have leaf : artifact = 0 := by simpa [twice] using depends
      subst leaf
      simp [twice] at builds
  intro action cycle
  obtain ⟨_, _, need⟩ := Relation.TransGen.tail'_iff.mp cycle
  exact noNeed _ _ need

theorem twice_exact :
    (serve twice 40 (start twice [1])).memory.processed = [.action true, .artifact 0] ∧
    ∀ node, Closure twice [1] node → Done twice (serve twice 40 (start twice [1])).memory node := by
  refine ⟨by decide, ?_⟩
  obtain ⟨-, -, complete⟩ := traversal_exact twice twice_acyclic (fun _ success => success = true)
    [1] (serve twice 40 (start twice [1])) 
    (serve_reachable _ _ Relation.ReflTransGen.refl)
  exact complete (by decide) (by simp) (by decide)

end Jst.Verif.Traversal
