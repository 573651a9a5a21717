import Jst.Execution.Executor
import Jst.Verif.Traversal
/-!
# Artifacts of failed actions are marked

When an action is processed, all actions that it needs have been, and the infos of their outputs are
final. So the mark of an output, computed from the marks of the inputs, is that of the whole
derivation, in every interleaving and for both runners.
-/
namespace Jst.Verif.FailedArtifacts

open Jst.Execution.Executor Jst.Execution.Executor.ActionGraph Jst.Graph Traversal Tree
open Relation (ReflTransGen TransGen)
open Multiset (coe_count count_add count_cons_self mem_coe notMem_zero)

variable {Action Artifact Hash : Type} [DecidableEq Action] [DecidableEq Artifact]
  {graph : ActionGraph Action Artifact Hash} {exits : Action → Option Int} {action : Action}

variable {artifacts : List (Str × ArtifactDigest Hash × Tree.ObjectType)}
  {outputs : List (Str × Artifact)} {exit : Option Int}

/-- An action that may fail has returned a non-zero exit code. -/
def MayFailed (graph : ActionGraph Action Artifact Hash) (exits : Action → Option Int)
    (action : Action) : Prop :=
  (graph.mayFail action).isSome = true ∧ ∃ code, exits action = some code ∧ code ≠ 0

/-- An action, or one that it transitively depends on, may fail and has returned a non-zero exit
code. -/
def Tainted (graph : ActionGraph Action Artifact Hash) (exits : Action → Option Int)
    (action : Action) : Prop :=
  ∃ failing, ReflTransGen (Needs graph.toDependencyGraph) failing action ∧
    MayFailed graph exits failing

theorem tainted_iff : Tainted graph exits action ↔ MayFailed graph exits action ∨
    ∃ required, Needs graph.toDependencyGraph required action ∧ Tainted graph exits required := by
  constructor
  · rintro ⟨failing, path, failed⟩
    cases ReflTransGen.cases_tail path with
    | inl same => exact .inl (same ▸ failed)
    | inr further =>
      obtain ⟨required, path, needs⟩ := further
      exact .inr ⟨required, needs, failing, path, failed⟩
  · rintro (failed | ⟨required, needs, failing, path, failed⟩)
    · exact ⟨action, .refl, failed⟩
    · exact ⟨failing, path.tail needs, failed⟩

theorem tainted_update {other : Action}
    (apart : ∀ required, ReflTransGen (Needs graph.toDependencyGraph) required action →
      required ≠ other) :
    Tainted graph (update exits other exit) action ↔ Tainted graph exits action := by
  constructor
  · rintro ⟨failing, path, mayFail, code, exited, nonzero⟩
    rw [update_of_ne (apart failing path)] at exited
    exact ⟨failing, path, mayFail, code, exited, nonzero⟩
  · rintro ⟨failing, path, mayFail, code, exited, nonzero⟩
    refine ⟨failing, path, mayFail, code, ?_, nonzero⟩
    rw [update_of_ne (apart failing path)]
    exact exited

/-! ## The runner -/

section Runner

variable {infos : Infos Artifact Hash} {outcome : Outcome Hash} {runner : Runner}

variable {artifact : Artifact}

variable {base : Str}

theorem saveObjectInfo_other {failed : Bool} (other : artifact ∉ outputs.map snd) :
    saveObjectInfo artifacts base failed infos outputs artifact = infos artifact := by
  unfold saveObjectInfo
  induction outputs generalizing infos with
  | nil => rfl
  | cons output rest ih =>
    obtain ⟨differ, others⟩ := not_or.mp (mt mem_cons.mpr other)
    rw [foldl_cons, ih others]
    cases findOutput artifacts base output.1 with
    | some object => exact update_of_ne differ _ _
    | none => rfl

theorem saveObjectInfo_output {failed : Bool}
    (found : ∀ output ∈ outputs, (findOutput artifacts base output.1).isSome = true)
    (inside : artifact ∈ outputs.map snd) :
    ∃ info, saveObjectInfo artifacts base failed infos outputs artifact = some info ∧
      info.failed = failed := by
  induction outputs generalizing infos with
  | nil => cases inside
  | cons output rest ih =>
    have others := (forall_mem_cons.mp found).2
    by_cases later : artifact ∈ rest.map snd
    · exact ih others later
    · have here : artifact = output.2 := (mem_cons.mp inside).resolve_right later
      obtain ⟨object, isObject⟩ := isSome_iff_exists.mp (found output mem_cons_self)
      have first : saveObjectInfo artifacts base failed infos (output :: rest) artifact =
          saveObjectInfo artifacts base failed (setObjectInfo infos output.2 object failed) rest
            artifact := by
        unfold saveObjectInfo
        rw [foldl_cons, isObject]
      refine ⟨⟨object.1, object.2, failed⟩, ?_, rfl⟩
      rw [first, saveObjectInfo_other later, here]
      exact update_self _ _ _

omit [DecidableEq Artifact] in
theorem findOutput_of_check {isTree : Bool}
    (checked : checkOutputsExist isTree artifacts (outputs.map fst) base = true) :
    ∀ output ∈ outputs, (findOutput artifacts base output.1).isSome = true := by
  intro output inside
  have here := List.all_eq_true.mp checked output.1 (mem_map.mpr ⟨output, inside, rfl⟩)
  cases found : findOutput artifacts base output.1 with
  | some object => rfl
  | none => simp [found] at here

/-- What the processing of an action does to the infos, and when it succeeds. -/
structure Processes (graph : ActionGraph Action Artifact Hash) (infos infos' : Infos Artifact Hash)
    (action : Action) (exit : Option Int) (success : Bool) : Prop where
  other : ∀ artifact, artifact ∉ graph.outputs action → infos' artifact = infos artifact
  failure : success = false → infos' = infos
  written : success = true → ∀ artifact ∈ graph.outputs action, ∃ info,
    infos' artifact = some info ∧ (info.failed = true ↔ graph.failedInputs infos action = true ∨
      (graph.mayFail action).isSome = true ∧ ∃ code, exit = some code ∧ code ≠ 0)
  allowed : success = true → ∀ code, exit = some code → code ≠ 0 → (graph.mayFail action).isSome = true

theorem Processes.failed : Processes graph infos infos action exit false where
  other := fun _ _ => rfl
  failure := fun _ => rfl
  written := nofun
  allowed := nofun

theorem processes_saveTree (tree : ArtifactDigest Hash)
    (isTree : ∀ mayFail, graph.kind action ≠ .ordinary mayFail) :
    Processes graph infos (graph.saveTree infos action tree) action none true := by
  obtain ⟨noFiles, path, artifact, isOutput⟩ := graph.treeOutput action isTree
  have outputs := graph.outputs_eq action
  rw [noFiles, isOutput] at outputs
  constructor
  · intro other outside
    rw [saveTree, isOutput]
    exact update_of_ne (fun same => outside (by rw [outputs, same]; simp)) _ _
  · exact nofun
  · intro _ other inside
    have same : other = artifact := by simpa [outputs] using inside
    refine ⟨⟨tree, .tree, graph.failedInputs infos action⟩, ?_, by simp⟩
    rw [saveTree, isOutput, same]
    exact update_self _ _ _
  · exact fun _ _ => nofun

theorem processes_parseResponse (response : Option (Response Hash)) :
    Processes graph infos (graph.parseResponse infos action response).2 action
      (response.map Response.exitCode) (graph.parseResponse infos action response).1 := by
  cases response with
  | none => exact .failed
  | some response =>
    rw [parseResponse]
    split
    · exact .failed
    · next allowed =>
      have mayFail : response.exitCode ≠ 0 → (graph.mayFail action).isSome = true := by
        intro nonzero
        cases may : graph.mayFail action with
        | some message => rfl
        | none => exact absurd ⟨nonzero, may⟩ allowed
      dsimp only
      split
      · exact .failed
      · next artifacts _ =>
        split
        · exact .failed
        · next checked =>
          simp only [or_eq_true, Bool.not_eq_true', not_or, Bool.not_eq_false] at checked
          obtain ⟨⟨-, files⟩, dirs⟩ := checked
          have outputs := graph.outputs_eq action
          rw [map_append] at outputs
          constructor
          · intro other outside
            rw [outputs, mem_append, not_or] at outside
            exact (saveObjectInfo_other outside.2).trans (saveObjectInfo_other outside.1)
          · exact nofun
          · intro _ artifact inside
            have mark : (graph.failedInputs infos action || decide (response.exitCode ≠ 0)) = true ↔
                graph.failedInputs infos action = true ∨ (graph.mayFail action).isSome = true ∧
                  ∃ code, some response.exitCode = some code ∧ code ≠ 0 := by
              rw [or_eq_true, decide_eq_true_iff]
              refine or_congr_right ⟨fun nonzero => ⟨mayFail nonzero, _, rfl, nonzero⟩, ?_⟩
              rintro ⟨-, code, ⟨⟩, nonzero⟩
              exact nonzero
            by_cases isDir : artifact ∈ (graph.outputDirs action).map snd
            · obtain ⟨info, written, marked⟩ :=
                saveObjectInfo_output (findOutput_of_check dirs) isDir
              exact ⟨info, written, by rw [marked]; exact mark⟩
            · rw [outputs, mem_append] at inside
              obtain ⟨info, written, marked⟩ :=
                saveObjectInfo_output (findOutput_of_check files) (inside.resolve_right isDir)
              exact ⟨info, (saveObjectInfo_other isDir).trans written, by rw [marked]; exact mark⟩
          · rintro _ code ⟨⟩ nonzero
            exact mayFail nonzero

theorem processes_rebuilt (response : Option (Response Hash)) : Processes graph infos
    (match runner with
      | .executor => graph.parseResponse infos action response
      | .rebuilder =>
        if detectFlakyAction outcome then (false, infos)
        else graph.parseResponse infos action response).2 action
    (response.map Response.exitCode)
    (match runner with
      | .executor => graph.parseResponse infos action response
      | .rebuilder =>
        if detectFlakyAction outcome then (false, infos)
        else graph.parseResponse infos action response).1 := by
  cases runner with
  | executor => exact processes_parseResponse response
  | rebuilder =>
    dsimp only
    split
    · exact .failed
    · exact processes_parseResponse response

theorem processes_processAction :
    Processes graph infos (graph.processAction runner infos action outcome).2 action
      (graph.exitCode action outcome) (graph.processAction runner infos action outcome).1 := by
  unfold processAction executeAction exitCode
  cases isKind : graph.kind action with
  | ordinary mayFail =>
    cases outcome.rootDigest with
    | none => exact processes_rebuilt none
    | some digest => exact processes_rebuilt outcome.response
  | tree =>
    cases outcome.rootDigest with
    | none => exact processes_rebuilt none
    | some digest => exact processes_saveTree digest (by simp [isKind])
  | treeOverlay =>
    cases outcome.overlay with
    | none => exact processes_rebuilt none
    | some digest => exact processes_saveTree digest (by simp [isKind])

theorem processArtifact_other {other : Artifact} (differ : other ≠ artifact) :
    (processArtifact infos artifact outcome).2 other = infos other := by
  unfold processArtifact
  split
  · rfl
  · split
    · rfl
    · exact update_of_ne differ _ _

theorem processArtifact_self : ((processArtifact infos artifact outcome).1 = true →
      ((processArtifact infos artifact outcome).2 artifact).isSome = true) ∧
    ((infos artifact).isSome = true →
      ((processArtifact infos artifact outcome).2 artifact).isSome = true) ∧
    ∀ info, (processArtifact infos artifact outcome).2 artifact = some info →
      infos artifact = some info ∨ info.failed = false := by
  unfold processArtifact
  split
  · next info there => simp [there]
  · next absent =>
    split
    · simp [absent]
    · next object _ =>
      have written : setObjectInfo infos artifact object false artifact =
          some ⟨object.1, object.2, false⟩ := update_self _ _ _
      simp only [written, Option.isSome_some, implies_true, true_and]
      rintro info ⟨⟩
      exact .inr rfl

end Runner

/-! ## Runs -/

section Runs

variable {memory : Memory Action Artifact} {rest : Work Action Artifact} {op : Op Action Artifact}
  {infos infos' : Infos Artifact Hash} {exits' : Action → Option Int} {success : Bool}
  {runner : Runner} {outcome : Outcome Hash} {steps : Work Action Artifact}

/-- An action has been processed, and the runner has returned. -/
def Finished (memory : Memory Action Artifact) (steps : Work Action Artifact) (action : Action) :
    Prop :=
  .action action ∈ memory.processed ∧ .finish (.action action) ∉ steps

/-- What holds in every state of a run. -/
structure Marked (graph : ActionGraph Action Artifact Hash) (memory : Memory Action Artifact)
    (steps : Work Action Artifact) (infos : Infos Artifact Hash) (exits : Action → Option Int) :
    Prop where
  finishing : ∀ node, steps.count (.finish node) ≤ memory.processed.count node
  written : ∀ artifact action, graph.builder artifact = some action →
    (infos artifact).isSome = true → Finished memory steps action
  exited : ∀ action, (exits action).isSome = true → Finished memory steps action
  available : ∀ artifact, memory.available artifact = true ∨ .makeAvailable artifact ∈ steps →
    (infos artifact).isSome = true
  source : ∀ artifact info, graph.builder artifact = none → infos artifact = some info →
    info.failed = false
  marks : ∀ artifact action info, graph.builder artifact = some action →
    infos artifact = some info → (info.failed = true ↔ Tainted graph exits action)
  unwritten : ∀ action code, exits action = some code → code ≠ 0 → graph.mayFail action = none →
    ∀ artifact ∈ graph.outputs action, infos artifact = none

theorem marked_start (targets : List Artifact) :
    Marked graph (graph.startBuild targets).state.memory (work (graph.startBuild targets).state)
      (graph.startBuild targets).infos (graph.startBuild targets).exits where
  finishing := by simp [startBuild, start, work]
  written artifact action built there := by
    obtain ⟨info, known⟩ := isSome_iff_exists.mp there
    rw [(graph.known_source artifact info known).1] at built
    cases built
  exited := nofun
  available := by simp [startBuild, start, work, initialMemory]
  source artifact info _ known := (graph.known_source artifact info known).2
  marks artifact action info built known := by
    rw [(graph.known_source artifact info known).1] at built
    cases built
  unwritten := nofun

theorem finished_exec (safe : Safe graph.toDependencyGraph memory (op ::ₘ rest))
    (finished : Finished memory (op ::ₘ rest) action) :
    Finished (exec graph.toDependencyGraph success memory op).memory
      ((added (exec graph.toDependencyGraph success memory op) : Work Action Artifact) + rest)
      action := by
  obtain ⟨processed, returned⟩ := finished
  constructor
  · rw [exec_processed]
    split
    · exact mem_cons_of_mem _ processed
    · exact processed
  · intro later
    rcases Multiset.mem_add.mp later with new | old
    · -- a second call of the runner would be needed
      have count := List.count_pos_iff.mpr (mem_coe.mp new)
      rw [count_finish] at count
      have called : op = .process (.action action) := by
        by_contra other
        rw [if_neg other] at count
        cases count
      have once := safe.once (.action action)
      have twice := List.count_pos_iff.mpr processed
      rw [called, count_cons_self] at once
      have bound := Bool.toNat_le (memory.queued (.action action))
      omega
    · exact returned (Multiset.mem_cons_of_mem old)

theorem finishing_exec (safe : Safe graph.toDependencyGraph memory (op ::ₘ rest))
    (finishing : ∀ node, (op ::ₘ rest).count (.finish node) ≤ memory.processed.count node)
    (node : Node Action Artifact) :
    ((added (exec graph.toDependencyGraph success memory op) : Work Action Artifact) + rest).count
        (.finish node) ≤
      (exec graph.toDependencyGraph success memory op).memory.processed.count node := by
  have before := finishing node
  rw [count_add, coe_count, count_finish, exec_processed]
  rw [Multiset.count_cons] at before
  split
  · next called =>
    subst called
    simp only [List.count_cons_self]
    split at before <;> omega
  · next other =>
    split
    · next called =>
      rw [List.count_cons]
      split at before <;> omega
    · split at before <;> omega

theorem finished_finish
    (safe : Safe graph.toDependencyGraph memory (.finish (.action action) ::ₘ rest))
    (finishing : ∀ node, (.finish (.action action) ::ₘ rest).count (.finish node) ≤
      memory.processed.count node) :
    Finished (exec graph.toDependencyGraph success memory (.finish (.action action))).memory
      ((added (exec graph.toDependencyGraph success memory (.finish (.action action))) :
        Work Action Artifact) + rest) action := by
  have once := safe.once (.action action)
  have bound := Bool.toNat_le (memory.queued (.action action))
  have count := finishing (.action action)
  rw [count_cons_self] at count
  have processed : .action action ∈ memory.processed := List.count_pos_iff.mp (by omega)
  constructor
  · rw [exec_processed]
    exact processed
  · intro later
    have again := Multiset.count_pos.mpr later
    rw [count_add, coe_count, count_finish, if_neg nofun] at again
    omega

theorem inputs_written (safe : Safe graph.toDependencyGraph memory steps)
    (marked : Marked graph memory steps infos exits) (ready : memory.unavailable action = 0)
    {artifact : Artifact} (depends : artifact ∈ graph.dependencies action) :
    (infos artifact).isSome = true := by
  have counter := safe.counter action
  have none' : (graph.dependencies action).countP
      (fun artifact => !memory.available artifact) = 0 := by omega
  refine marked.available artifact (.inl ?_)
  simpa using List.countP_eq_zero.mp none' artifact depends

variable {required : Action}

theorem finished_needed (safe : Safe graph.toDependencyGraph memory steps)
    (marked : Marked graph memory steps infos exits) (finished : Finished memory steps action)
    (path : ReflTransGen (Needs graph.toDependencyGraph) required action) :
    Finished memory steps required := by
  induction path using ReflTransGen.head_induction_on with
  | refl => exact finished
  | head needs _ later =>
    obtain ⟨artifact, depends, built⟩ := needs
    have written := inputs_written safe marked (safe.readyProcessed _ later.1) depends
    exact marked.written artifact _ built written

theorem finished_required (safe : Safe graph.toDependencyGraph memory steps)
    (marked : Marked graph memory steps infos exits) (ready : memory.unavailable action = 0)
    (needs : Needs graph.toDependencyGraph required action) : Finished memory steps required := by
  obtain ⟨artifact, depends, built⟩ := needs
  exact marked.written artifact required built (inputs_written safe marked ready depends)

theorem failedInputs_iff (safe : Safe graph.toDependencyGraph memory steps)
    (marked : Marked graph memory steps infos exits) (ready : memory.unavailable action = 0) :
    graph.failedInputs infos action = true ↔
      ∃ required, Needs graph.toDependencyGraph required action ∧ Tainted graph exits required := by
  rw [failedInputs, List.any_eq_true]
  constructor
  · rintro ⟨artifact, depends, isMarked⟩
    obtain ⟨info, there⟩ := isSome_iff_exists.mp (inputs_written safe marked ready depends)
    have failed : info.failed = true := by simpa [there] using isMarked
    cases built : graph.builder artifact with
    | none =>
      rw [marked.source artifact info built there] at failed
      cases failed
    | some required =>
      exact ⟨required, ⟨artifact, depends, built⟩,
        (marked.marks artifact required info built there).mp failed⟩
  · rintro ⟨required, ⟨artifact, depends, built⟩, tainted⟩
    obtain ⟨info, there⟩ := isSome_iff_exists.mp (inputs_written safe marked ready depends)
    have failed := (marked.marks artifact required info built there).mpr tainted
    exact ⟨artifact, depends, by rw [there]; exact failed⟩

theorem available_exec {artifact : Artifact}
    (there : (exec graph.toDependencyGraph success memory op).memory.available artifact = true ∨
      .makeAvailable artifact ∈
        (added (exec graph.toDependencyGraph success memory op) : Work Action Artifact) + rest) :
    (memory.available artifact = true ∨ .makeAvailable artifact ∈ op ::ₘ rest) ∨
      success = true ∧ ((∃ action, op = .finish (.action action) ∧
        artifact ∈ graph.outputs action) ∨ op = .finish (.artifact artifact)) := by
  rcases there with available | later
  · rw [exec_available, or_eq_true, decide_eq_true_iff] at available
    rcases available with old | rfl
    · exact .inl (.inl old)
    · exact .inl (.inr (Multiset.mem_cons_self _ rest))
  · rcases Multiset.mem_add.mp later with new | old
    · have count := List.count_pos_iff.mpr (mem_coe.mp new)
      rw [count_makeAvailable] at count
      split at count
      · next action =>
        split at count
        · next succeeded => exact .inr ⟨succeeded, .inl ⟨action, rfl, List.count_pos_iff.mp count⟩⟩
        · cases count
      · next leaf =>
        split at count
        · next both => exact .inr ⟨both.1, .inr (by rw [both.2])⟩
        · cases count
      · cases count
    · exact .inl (.inr (Multiset.mem_cons_of_mem old))

theorem marked_other (safe : Safe graph.toDependencyGraph memory (op ::ₘ rest))
    (marked : Marked graph memory (op ::ₘ rest) infos exits) (other : ∀ node, op ≠ .finish node) :
    Marked graph (exec graph.toDependencyGraph success memory op).memory
      ((added (exec graph.toDependencyGraph success memory op) : Work Action Artifact) + rest)
      infos exits where
  finishing := finishing_exec safe marked.finishing
  written artifact action built there :=
    finished_exec safe (marked.written artifact action built there)
  exited action exited := finished_exec safe (marked.exited action exited)
  available artifact there := by
    rcases available_exec there with before | ⟨-, ⟨action, finish, -⟩ | finish⟩
    · exact marked.available artifact before
    · exact absurd finish (other _)
    · exact absurd finish (other _)
  source := marked.source
  marks := marked.marks
  unwritten := marked.unwritten

theorem marked_artifact {leaf : Artifact}
    (safe : Safe graph.toDependencyGraph memory (.finish (.artifact leaf) ::ₘ rest))
    (marked : Marked graph memory (.finish (.artifact leaf) ::ₘ rest) infos exits)
    (processed : processArtifact infos leaf outcome = (success, infos')) :
    Marked graph (exec graph.toDependencyGraph success memory (.finish (.artifact leaf))).memory
      ((added (exec graph.toDependencyGraph success memory (.finish (.artifact leaf))) :
        Work Action Artifact) + rest) infos' exits := by
  have unbuilt : graph.builder leaf = none := safe.leaf _ (Multiset.mem_cons_self _ rest) leaf rfl
  have others : ∀ artifact, artifact ≠ leaf → infos' artifact = infos artifact := by
    intro artifact differ
    have frame := @processArtifact_other _ Hash _ infos outcome leaf artifact differ
    rwa [processed] at frame
  obtain ⟨succeeds, keeps, source⟩ := @processArtifact_self _ Hash _ infos outcome leaf
  rw [processed] at succeeds keeps source
  have built : ∀ artifact action, graph.builder artifact = some action →
      infos' artifact = infos artifact := by
    intro artifact action builds
    refine others artifact ?_
    rintro rfl
    rw [unbuilt] at builds
    cases builds
  constructor
  · exact finishing_exec safe marked.finishing
  · intro artifact action builds there
    rw [built artifact action builds] at there
    exact finished_exec safe (marked.written artifact action builds there)
  · exact fun action exited => finished_exec safe (marked.exited action exited)
  · intro artifact there
    by_cases same : artifact = leaf
    · subst same
      rcases available_exec there with before | ⟨succeeded, -⟩
      · exact keeps (marked.available artifact before)
      · exact succeeds succeeded
    · rw [others artifact same]
      rcases available_exec there with before | ⟨-, ⟨action, finish, -⟩ | finish⟩
      · exact marked.available artifact before
      · cases finish
      · cases finish
        exact absurd rfl same
  · intro artifact info builds there
    by_cases same : artifact = leaf
    · subst same
      rcases source info there with before | unmarked
      · exact marked.source artifact info builds before
      · exact unmarked
    · rw [others artifact same] at there
      exact marked.source artifact info builds there
  · intro artifact action info builds there
    rw [built artifact action builds] at there
    exact marked.marks artifact action info builds there
  · intro action code exited nonzero mustNot artifact inside
    rw [built artifact action ((graph.built action artifact).mp inside)]
    exact marked.unwritten action code exited nonzero mustNot artifact inside

theorem marked_action
    (safe : Safe graph.toDependencyGraph memory (.finish (.action action) ::ₘ rest))
    (marked : Marked graph memory (.finish (.action action) ::ₘ rest) infos exits)
    (processes : Processes graph infos infos' action exit success) :
    Marked graph (exec graph.toDependencyGraph success memory (.finish (.action action))).memory
      ((added (exec graph.toDependencyGraph success memory (.finish (.action action))) :
        Work Action Artifact) + rest) infos' (update exits action exit) := by
  have ready : memory.unavailable action = 0 :=
    safe.ready _ (Multiset.mem_cons_self _ rest) action rfl
  have unfinished : ¬ Finished memory (.finish (.action action) ::ₘ rest) action :=
    fun finished => finished.2 (Multiset.mem_cons_self _ rest)
  have outputs := graph.built action
  -- nothing has been written to the outputs before
  have before : ∀ artifact ∈ graph.outputs action, infos artifact = none := by
    intro artifact inside
    by_contra there
    exact unfinished (marked.written artifact action ((outputs artifact).mp inside)
      (Option.isSome_iff_ne_none.mpr there))
  have others : ∀ artifact other, graph.builder artifact = some other → other ≠ action →
      infos' artifact = infos artifact := by
    intro artifact other built differ
    refine processes.other artifact fun inside => differ ?_
    rw [(outputs artifact).mp inside] at built
    exact (some.inj built).symm
  -- a finished action does not need this one
  have apart : ∀ other, Finished memory (.finish (.action action) ::ₘ rest) other →
      (Tainted graph (update exits action exit) other ↔ Tainted graph exits other) := by
    refine fun other finished => tainted_update fun required path => ?_
    rintro rfl
    exact unfinished (finished_needed safe marked finished path)
  have tainted : Tainted graph (update exits action exit) action ↔
      graph.failedInputs infos action = true ∨
        (graph.mayFail action).isSome = true ∧ ∃ code, exit = some code ∧ code ≠ 0 := by
    rw [tainted_iff, failedInputs_iff safe marked ready, or_comm]
    refine or_congr ?_ ?_
    · refine exists_congr fun required => and_congr_right fun needs => ?_
      exact apart required (finished_required safe marked ready needs)
    · rw [MayFailed, update_self]
  have finished := @finished_finish _ _ _ _ _ graph action memory rest success safe marked.finishing
  constructor
  · exact finishing_exec safe marked.finishing
  · intro artifact other built there
    by_cases same : other = action
    · exact same ▸ finished
    · rw [others artifact other built same] at there
      exact finished_exec safe (marked.written artifact other built there)
  · intro other exited
    by_cases same : other = action
    · exact same ▸ finished
    · rw [update_of_ne same] at exited
      exact finished_exec safe (marked.exited other exited)
  · intro artifact there
    by_cases inside : artifact ∈ graph.outputs action
    · rcases available_exec there with old | ⟨succeeded, -⟩
      · have there' := marked.available artifact old
        rw [before artifact inside] at there'
        cases there'
      · obtain ⟨info, written, -⟩ := processes.written succeeded artifact inside
        rw [written]
        rfl
    · rw [processes.other artifact inside]
      rcases available_exec there with old | ⟨-, ⟨other, finish, output⟩ | finish⟩
      · exact marked.available artifact old
      · cases finish
        exact absurd output inside
      · cases finish
  · intro artifact info unbuilt there
    rw [processes.other artifact fun inside => by
      rw [(outputs artifact).mp inside] at unbuilt
      cases unbuilt] at there
    exact marked.source artifact info unbuilt there
  · intro artifact other info built there
    by_cases same : other = action
    · subst same
      have inside := (outputs artifact).mpr built
      cases succeeded : success with
      | false =>
        rw [processes.failure succeeded, before artifact inside] at there
        cases there
      | true =>
        obtain ⟨info', written, failed⟩ := processes.written succeeded artifact inside
        rw [written] at there
        cases there
        exact failed.trans tainted.symm
    · rw [others artifact other built same] at there
      rw [apart other (marked.written artifact other built (by rw [there]; rfl))]
      exact marked.marks artifact other info built there
  · intro other code exited nonzero mustNot artifact inside
    by_cases same : other = action
    · subst same
      rw [update_self] at exited
      cases succeeded : success with
      | false => rw [processes.failure succeeded, before artifact inside]
      | true =>
        have mayFail := processes.allowed succeeded code exited nonzero
        rw [mustNot] at mayFail
        cases mayFail
    · rw [update_of_ne same] at exited
      rw [others artifact other ((graph.built other artifact).mp inside) same]
      exact marked.unwritten other code exited nonzero mustNot artifact inside

theorem marked_perform (safe : Safe graph.toDependencyGraph memory (op ::ₘ rest))
    (marked : Marked graph memory (op ::ₘ rest) infos exits)
    (performed : graph.perform runner outcome infos exits op = (success, infos', exits')) :
    Marked graph (exec graph.toDependencyGraph success memory op).memory
      ((added (exec graph.toDependencyGraph success memory op) : Work Action Artifact) + rest)
      infos' exits' := by
  cases op with
  | finish node =>
    cases node with
    | action action =>
      have processes := @processes_processAction _ _ _ _ _ graph action infos outcome runner
      simp only [perform, Prod.mk.injEq] at performed
      obtain ⟨rfl, rfl, rfl⟩ := performed
      exact marked_action safe marked processes
    | artifact leaf =>
      simp only [perform, Prod.mk.injEq] at performed
      obtain ⟨rfl, rfl, rfl⟩ := performed
      exact marked_artifact safe marked rfl
  | _ =>
    simp only [perform, Prod.mk.injEq] at performed
    obtain ⟨rfl, rfl, rfl⟩ := performed
    exact marked_other safe marked nofun

end Runs

section Builds

variable {runner : Runner} {build next : Build Action Artifact Hash} {targets : List Artifact}

theorem work_buildStep (step : graph.BuildStep runner build next) : ∃ op success rest outcome,
      graph.perform runner outcome build.infos build.exits op = (success, next.infos, next.exits) ∧
      next.state.memory = (exec graph.toDependencyGraph success build.state.memory op).memory ∧
      work build.state = op ::ₘ rest ∧ work next.state =
        (added (exec graph.toDependencyGraph success build.state.memory op) : Multiset _) + rest := by
  obtain @⟨memory, before, after, op, rest, infos, infos', exits, exits', success, outcome,
    performed⟩ := step
  obtain ⟨taken, left⟩ := work_run (exec graph.toDependencyGraph success memory op)
  exact ⟨op, success, _, outcome, performed, rfl, taken, left⟩

theorem reachable_build (reached : ReflTransGen (graph.BuildStep runner)
    (graph.startBuild targets) build) :
    Reachable graph.toDependencyGraph (fun _ _ => True) targets build.state := by
  induction reached with
  | refl => exact .refl
  | tail _ step before =>
    refine before.tail ?_
    cases step with
    | run outcome performed => exact .run fun _ _ => trivial

theorem marked_build (reached : ReflTransGen (graph.BuildStep runner)
    (graph.startBuild targets) build) :
    Marked graph build.state.memory (work build.state) build.infos build.exits := by
  induction reached with
  | refl => exact marked_start targets
  | tail run step before =>
    have safe := safe_reachable (reachable_build run)
    obtain ⟨op, success, rest, outcome, performed, memory, taken, left⟩ := work_buildStep step
    rw [taken] at before safe
    rw [memory, left]
    exact marked_perform safe before performed

/-- Nothing has failed or is about to. -/
def Clear (state : State Action Artifact) : Prop :=
  state.memory.failed = false ∧ .abort ∉ work state

theorem clear_of_step {state after : State Action Artifact} {op : Op Action Artifact}
    {success : Bool} {rest : Work Action Artifact}
    (memory : after.memory = (exec graph.toDependencyGraph success state.memory op).memory)
    (taken : work state = op ::ₘ rest) (left : work after =
      (added (exec graph.toDependencyGraph success state.memory op) : Multiset _) + rest)
    (clear : Clear after) : Clear state ∧
      .abort ∉ added (exec graph.toDependencyGraph success state.memory op) := by
  obtain ⟨sound, noAbort⟩ := clear
  rw [memory, exec_failed, Bool.or_eq_false_iff] at sound
  rw [left, Multiset.mem_add, not_or] at noAbort
  refine ⟨⟨sound.1, fun aborts => ?_⟩, fun aborts => noAbort.1 (mem_coe.mpr aborts)⟩
  rw [taken] at aborts
  rcases Multiset.mem_cons.mp aborts with now | later
  · exact absurd now.symm (by simpa using sound.2)
  · exact noAbort.2 later

theorem reachable_clear (reached : ReflTransGen (graph.BuildStep runner)
    (graph.startBuild targets) build) (clear : Clear build.state) :
    Reachable graph.toDependencyGraph (fun _ success => success = true) targets build.state ∧
    ∀ target ∈ targets, graph.hasArtifactNode target = true ∨
      ∃ list, .traverse list ∈ work build.state ∧ target ∈ list := by
  induction reached with
  | refl =>
    exact ⟨.refl, fun target inside => .inr ⟨targets, by simp [startBuild, start, work], inside⟩⟩
  | @tail middle last run step before =>
    obtain ⟨op, success, rest, outcome, performed, memory, taken, left⟩ := work_buildStep step
    obtain ⟨clear', noAbort⟩ := clear_of_step memory taken left clear
    obtain ⟨reached, targets'⟩ := before clear'
    constructor
    · cases step with
      | @run memory' before' after' op' rest' infos infos' exits exits' success' outcome'
          performed' =>
        refine reached.tail (.run fun node finish => ?_)
        subst finish
        cases success' with
        | true => rfl
        | false =>
          have aborts : Op.abort ∈
              added (exec graph.toDependencyGraph false memory' (.finish node)) := by
            simp [exec, added]
          have left' := (@work_run _ _ memory'
            (exec graph.toDependencyGraph false memory' (.finish node)).memory before' after'
            (.finish node) rest' (exec graph.toDependencyGraph false memory' (.finish node))).2
          refine absurd ?_ clear.2
          rw [left']
          exact Multiset.mem_add.mpr (.inl (mem_coe.mpr aborts))
    · intro target inside
      rcases targets' target inside with known | ⟨list, queued, member⟩
      · exact .inl known
      · rw [taken] at queued
        rw [left]
        rcases Multiset.mem_cons.mp queued with now | later
        · -- the next target is known, or the traversal is aborted
          subst now
          cases list with
          | nil => cases member
          | cons first others =>
            cases known : graph.hasArtifactNode first with
            | false => exact absurd (by simp [exec, added, known]) noAbort
            | true =>
              rcases mem_cons.mp member with same | further
              · exact .inl (same ▸ known)
              · refine .inr ⟨others, Multiset.mem_add.mpr (.inl (mem_coe.mpr ?_)), further⟩
                simp [exec, added, known]
        · exact .inr ⟨list, Multiset.mem_add.mpr (.inr later), member⟩

/-- In every interleaving of a traversal, for both runners and whatever the executions return: an
output that has an info is marked exactly if its action, or one that it transitively depends on, may
fail and has returned a non-zero exit code; and the outputs of an action that has returned one and
may not fail are not processed. After a successful traversal, all outputs of the actions of the
closure have an info. -/
theorem output_failed_iff [Finite Action] (acyclic : graph.Acyclic)
    (reached : ReflTransGen (graph.BuildStep runner) (graph.startBuild targets) build) :
    (∀ action, ∀ artifact ∈ graph.outputs action, ∀ info, build.infos artifact = some info →
      (info.failed = true ↔ Tainted graph build.exits action)) ∧
    (∀ action code, build.exits action = some code → code ≠ 0 → graph.mayFail action = none →
      ∀ artifact ∈ graph.outputs action, build.infos artifact = none) ∧
    (build.state.Idle → build.state.memory.failed = false →
      ∀ action, Closure graph.toDependencyGraph targets (.action action) →
        ∀ artifact ∈ graph.outputs action, ∃ info, build.infos artifact = some info ∧
          (info.failed = true ↔ Tainted graph build.exits action)) := by
  have marked := marked_build reached
  have marks : ∀ action, ∀ artifact ∈ graph.outputs action, ∀ info,
      build.infos artifact = some info →
      (info.failed = true ↔ Tainted graph build.exits action) :=
    fun action artifact inside info there =>
      marked.marks artifact action info ((graph.built action artifact).mp inside) there
  refine ⟨marks, marked.unwritten, fun idle sound action needed artifact inside => ?_⟩
  have nothing := work_idle idle
  have clear : Clear build.state := ⟨sound, by rw [nothing]; exact notMem_zero _⟩
  obtain ⟨reachable, targets'⟩ := reachable_clear reached clear
  have known : ∀ target ∈ targets, graph.hasArtifactNode target = true := by
    intro target member
    refine (targets' target member).resolve_right ?_
    rintro ⟨list, queued, -⟩
    rw [nothing] at queued
    exact notMem_zero _ queued
  have safe := safe_reachable reachable
  have live := live_reachable known (fun _ absurd' => nomatch absurd') reachable
  rw [nothing] at safe live marked
  have processed : .action action ∈ build.state.memory.processed :=
    done_of_closure (needs_wellFounded acyclic) safe live needed
  have built : producer graph.toDependencyGraph artifact = .action action := by
    rw [producer, (graph.built action artifact).mp inside]
  have available : build.state.memory.available artifact = true :=
    (available_iff_processed live artifact).mpr (built ▸ processed)
  obtain ⟨info, there⟩ := isSome_iff_exists.mp (marked.available artifact (.inl available))
  exact ⟨info, there, marks action artifact inside info there⟩

end Builds

/-- An action that may fail, and a tree of its output. -/
def chain : ActionGraph Bool Nat Unit where
  hasArtifactNode artifact := artifact ≤ 2
  builder artifact := if artifact = 1 then some false else if artifact = 2 then some true else none
  consumers artifact := if artifact = 0 then [false] else if artifact = 1 then [true] else []
  dependencies action := if action then [1] else [0]
  outputs action := if action then [2] else [1]
  built := by
    intro action artifact
    cases action <;> by_cases first : artifact = 1 <;> by_cases second : artifact = 2 <;>
      simp_all
  outputOnce := by decide
  consumed := by
    intro action artifact
    cases action <;> by_cases source : artifact = 0 <;> by_cases first : artifact = 1 <;>
      simp_all [eq_comm]
  kind action := if action then .tree else .ordinary (some (lit "tests failed"))
  cwd _ := []
  outputFiles action := if action then [] else [(lit "out", 1)]
  outputDirs action := if action then [(lit ".", 2)] else []
  outputs_eq := by decide
  treeOutput := by
    intro action isTree
    cases action with
    | false => exact absurd rfl (isTree _)
    | true => exact ⟨rfl, lit ".", 2, rfl⟩
  known artifact := if artifact = 0 then some ⟨⟨(), false⟩, .file, false⟩ else none
  known_source := by
    intro artifact info known
    split at known
    · next source =>
      cases known
      rw [source]
      exact ⟨rfl, rfl⟩
    · cases known

/-- The action fails and writes its output. -/
def failing (_ : Node Bool Nat) : Outcome Unit where
  rootDigest := some ⟨(), true⟩
  overlay := none
  response := some ⟨1, some [(lit "out", ⟨(), false⟩, .file)]⟩
  responseCached := none
  sameAction := false
  available := true
  uploaded := none

theorem chain_acyclic : chain.Acyclic := by
  have up : ∀ required action, Needs chain.toDependencyGraph required action →
      required = false ∧ action = true := by
    rintro required (_ | _) ⟨artifact, depends, builds⟩
    · have source : artifact = 0 := by simpa [chain] using depends
      subst source
      cases builds
    · have first : artifact = 1 := by simpa [chain] using depends
      subst first
      exact ⟨(some.inj builds).symm, rfl⟩
  intro action cycle
  obtain ⟨_, first, _⟩ := TransGen.head'_iff.mp cycle
  obtain ⟨_, _, last⟩ := TransGen.tail'_iff.mp cycle
  rw [(up _ _ first).1] at last
  cases (up _ _ last).2

theorem output_failed_iff_chain : ∃ info,
    (chain.serveBuild .executor failing 60 (chain.startBuild [2])).infos 2 = some info ∧
    (info.failed = true ↔ Tainted chain
      (chain.serveBuild .executor failing 60 (chain.startBuild [2])).exits true) :=
  (output_failed_iff chain_acyclic (chain.serveBuild_reaches 60 (chain.startBuild [2]))).2.2
    (by decide) (by decide) true
    (.builder (.target mem_cons_self) rfl) 2 (by decide)

end Jst.Verif.FailedArtifacts
