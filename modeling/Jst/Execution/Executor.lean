import Jst.FileSystem.FileSystemManager
import Jst.Graph.Traverser
import Jst.Utils.PathRebase
/-!
# Processing the nodes of the action graph

`Executor` and `Rebuilder` as runners of the traverser. The processing of an action computes a tree,
or executes a command and takes the outputs from the response; the infos of the outputs are written
to their nodes, with a mark if they stem from a failed action. What the execution API answers is an
outcome. A node is processed when the runner returns: the infos that it reads have been written
before it was called, and those that it writes are read by nobody before.
-/
namespace Jst.Execution.Executor

open Graph Tree

/-- The kinds of actions. -/
inductive Kind where
  /-- An action with a command; `MayFail`. -/
  | ordinary (mayFail : Option Str)
  /-- `IsTreeAction`. -/
  | tree
  /-- `IsTreeOverlayAction`. -/
  | treeOverlay
deriving DecidableEq

/-- The dependency graph with what the runner reads of its nodes. -/
structure ActionGraph (Action Artifact Hash : Type) [DecidableEq Action] [DecidableEq Artifact]
    extends DependencyGraph Action Artifact where
  kind : Action → Kind
  cwd : Action → Str
  outputFiles : Action → List (Str × Artifact)
  outputDirs : Action → List (Str × Artifact)
  outputs_eq : ∀ action, outputs action = (outputFiles action ++ outputDirs action).map snd
  treeOutput : ∀ action, (∀ mayFail, kind action ≠ .ordinary mayFail) →
    outputFiles action = [] ∧ ∃ path artifact, outputDirs action = [(path, artifact)]
  /-- The infos of `CreateKnownArtifact`. -/
  known : Artifact → Option (ObjectInfo Hash)
  known_source : ∀ artifact info, known artifact = some info →
    builder artifact = none ∧ info.failed = false

/-- `IExecutionResponse`. -/
structure Response (Hash : Type) where
  exitCode : Int
  /-- `Artifacts`, which are not marked, or an error. -/
  artifacts : Option (List (Str × ArtifactDigest Hash × Tree.ObjectType))

/-- What the execution API answers while a node is processed. -/
structure Outcome (Hash : Type) where
  /-- `CreateRootDigest`. -/
  rootDigest : Option (ArtifactDigest Hash)
  /-- The tree that `TreeOperationsUtils` computes from the inputs. -/
  overlay : Option (ArtifactDigest Hash)
  /-- `Execute`, and the checks of its result. -/
  response : Option (Response Hash)
  responseCached : Option (Response Hash)
  sameAction : Bool
  /-- What `VerifyOrUploadArtifact` finds: whether the object is available or could be uploaded, and
  for a local file its digest and type. -/
  available : Bool
  /-- `UploadFile`. -/
  uploaded : Option (ArtifactDigest Hash × Tree.ObjectType)

/-- The two runners. -/
inductive Runner where
  | executor
  | rebuilder
deriving DecidableEq

/-- `Artifact::Info` of all artifact nodes. -/
abbrev Infos (Artifact Hash : Type) := Artifact → Option (ObjectInfo Hash)

variable {Action Artifact Hash : Type} [DecidableEq Action] [DecidableEq Artifact]

/-- `SetObjectInfo` with a digest and a type. -/
def setObjectInfo (infos : Infos Artifact Hash) (artifact : Artifact)
    (object : ArtifactDigest Hash × Tree.ObjectType) (failed : Bool) : Infos Artifact Hash :=
  update infos artifact (some ⟨object.1, object.2, failed⟩)

namespace ActionGraph

variable (graph : ActionGraph Action Artifact Hash)

/-- The loops over the dependencies for `failed_inputs` and `should_fail_outputs`. -/
def failedInputs (infos : Infos Artifact Hash) (action : Action) : Bool :=
  (graph.dependencies action).any fun artifact => (infos artifact).any fun info => info.failed

/-- `ExecuteTreeOverlayAction` and the branch of `ExecuteAction` for tree actions: the tree is the
info of the first output directory. -/
def saveTree (infos : Infos Artifact Hash) (action : Action) (tree : ArtifactDigest Hash) :
    Infos Artifact Hash :=
  match graph.outputDirs action with
  | [] => infos
  | output :: _ => setObjectInfo infos output.2 (tree, .tree) (graph.failedInputs infos action)

/-- `ExecuteAction` — no response for a tree, or a response that may be null. -/
def executeAction (infos : Infos Artifact Hash) (action : Action) (outcome : Outcome Hash) :
    Option (Option (Response Hash)) × Infos Artifact Hash :=
  match graph.kind action with
  | .treeOverlay =>
    match outcome.overlay with
    | none => (some none, infos)
    | some tree => (none, graph.saveTree infos action tree)
  | .tree =>
    match outcome.rootDigest with
    | none => (some none, infos)
    | some tree => (none, graph.saveTree infos action tree)
  | .ordinary _ =>
    match outcome.rootDigest with
    | none => (some none, infos)
    | some _ => (some outcome.response, infos)

/-- The artifact of a response for an output, which is named relative to the working directory. -/
def findOutput (artifacts : List (Str × ArtifactDigest Hash × Tree.ObjectType)) (base path : Str) :
    Option (ArtifactDigest Hash × Tree.ObjectType) :=
  (artifacts.find? fun entry => entry.1 = Path.rebasePathStringRelativeTo base path).map snd

def checkOutputsExist (isTree : Bool) (artifacts : List (Str × ArtifactDigest Hash × Tree.ObjectType))
    (outputs : List Str) (base : Str) : Bool :=
  outputs.all fun output =>
    match findOutput artifacts base output with
    | some (_, type) =>
      (if isTree then decide (type = .tree) else FileSystem.isFileObject type) ||
        decide (type = .symlink)
    | none => false

/-- `SaveObjectInfo` for some outputs. -/
def saveObjectInfo (artifacts : List (Str × ArtifactDigest Hash × Tree.ObjectType)) (base : Str)
    (failArtifacts : Bool) (infos : Infos Artifact Hash) (outputs : List (Str × Artifact)) :
    Infos Artifact Hash :=
  outputs.foldl (fun infos output =>
    match findOutput artifacts base output.1 with
    | some object => setObjectInfo infos output.2 object failArtifacts
    | none => infos) infos

def mayFail (action : Action) : Option Str :=
  match graph.kind action with
  | .ordinary mayFail => mayFail
  | _ => none

def parseResponse (infos : Infos Artifact Hash) (action : Action)
    (response : Option (Response Hash)) : Bool × Infos Artifact Hash :=
  match response with
  | none => (false, infos)
  | some response =>
    if response.exitCode ≠ 0 ∧ graph.mayFail action = none then (false, infos)
    else
      let shouldFailOutputs := graph.failedInputs infos action || decide (response.exitCode ≠ 0)
      match response.artifacts with
      | none => (false, infos)
      | some artifacts =>
        if artifacts.isEmpty ||
            !checkOutputsExist false artifacts ((graph.outputFiles action).map fst)
              (graph.cwd action) ||
            !checkOutputsExist true artifacts ((graph.outputDirs action).map fst)
              (graph.cwd action) then
          (false, infos)
        else
          (true, saveObjectInfo artifacts (graph.cwd action) shouldFailOutputs
            (saveObjectInfo artifacts (graph.cwd action) shouldFailOutputs infos
              (graph.outputFiles action)) (graph.outputDirs action))

/-- `DetectFlakyAction` — whether there is an error. -/
def detectFlakyAction (outcome : Outcome Hash) : Bool :=
  match outcome.response, outcome.responseCached with
  | some response, some cached =>
    outcome.sameAction &&
      match response.artifacts, cached.artifacts with
      | some artifacts, some artifactsCached =>
        artifacts.any fun entry => !(artifactsCached.any fun other => other.1 = entry.1)
      | _, _ => true
  | _, _ => false

/-- `Executor::Process` and `Rebuilder::Process` of an action. -/
def processAction (runner : Runner) (infos : Infos Artifact Hash) (action : Action)
    (outcome : Outcome Hash) : Bool × Infos Artifact Hash :=
  match graph.executeAction infos action outcome with
  | (none, infos) => (true, infos)
  | (some response, infos) =>
    match runner with
    | .executor => graph.parseResponse infos action response
    | .rebuilder =>
      if detectFlakyAction outcome then (false, infos)
      else graph.parseResponse infos action response

/-- `VerifyOrUploadArtifact` — only a local file gets an info. -/
def processArtifact (infos : Infos Artifact Hash) (artifact : Artifact) (outcome : Outcome Hash) :
    Bool × Infos Artifact Hash :=
  match infos artifact with
  | some _ => (outcome.available, infos)
  | none =>
    match outcome.uploaded with
    | none => (false, infos)
    | some object => (true, setObjectInfo infos artifact object false)

end ActionGraph

/-! ## Building -/

/-- The state of a traversal, the infos of the artifact nodes, and the exit codes that were returned
by actions. -/
structure Build (Action Artifact Hash : Type) where
  state : Graph.State Action Artifact
  /-- `Artifact::Info`. -/
  infos : Infos Artifact Hash
  exits : Action → Option Int

namespace ActionGraph

variable (graph : ActionGraph Action Artifact Hash)

/-- The exit code that is returned when an action is executed. -/
def exitCode (action : Action) (outcome : Outcome Hash) : Option Int :=
  match graph.kind action with
  | .ordinary _ => outcome.rootDigest.bind fun _ => outcome.response.map Response.exitCode
  | _ => none

/-- What an atomic step of the traverser does to the infos and the exit codes, and the result of the
runner if it returns. -/
def perform (runner : Runner) (outcome : Outcome Hash) (infos : Infos Artifact Hash)
    (exits : Action → Option Int) :
    Op Action Artifact → Bool × Infos Artifact Hash × (Action → Option Int)
  | .finish (.action action) =>
    let (success, infos) := graph.processAction runner infos action outcome
    (success, infos, update exits action (graph.exitCode action outcome))
  | .finish (.artifact artifact) =>
    let (success, infos) := processArtifact infos artifact outcome
    (success, infos, exits)
  | _ => (true, infos, exits)

/-- The main thread is about to call `Traverse`. -/
def startBuild (targets : List Artifact) : Build Action Artifact Hash where
  state := start graph.toDependencyGraph targets
  infos := graph.known
  exits := fun _ => none

/-- Some task makes its next atomic step. -/
inductive BuildStep (runner : Runner) :
    Build Action Artifact Hash → Build Action Artifact Hash → Prop where
  | run {memory : Memory Action Artifact} {before after : List (List (Op Action Artifact))}
      {op : Op Action Artifact} {rest : List (Op Action Artifact)}
      {infos infos' : Infos Artifact Hash} {exits exits' : Action → Option Int} {success : Bool}
      (outcome : Outcome Hash)
      (performed : graph.perform runner outcome infos exits op = (success, infos', exits')) :
      BuildStep runner ⟨⟨memory, before ++ (op :: rest) :: after⟩, infos, exits⟩
        ⟨⟨(exec graph.toDependencyGraph success memory op).memory,
          before ++ ((exec graph.toDependencyGraph success memory op).next ++ rest) :: after ++
            (exec graph.toDependencyGraph success memory op).tasks.map fun first => [first]⟩,
          infos', exits'⟩

/-- The run of a single thread that serves the tasks in order, with the answers for each action, for
a number of steps. -/
def serveBuild (runner : Runner) (outcome : Node Action Artifact → Outcome Hash) :
    Nat → Build Action Artifact Hash → Build Action Artifact Hash
  | 0, build => build
  | steps + 1, build =>
    match firstTask build.state.tasks with
    | none => build
    | some (before, op, rest, after) =>
      let answers :=
        match op with
        | .finish node => outcome node
        | _ => ⟨none, none, none, none, false, false, none⟩
      let (success, infos, exits) := graph.perform runner answers build.infos build.exits op
      let effect := exec graph.toDependencyGraph success build.state.memory op
      serveBuild runner outcome steps ⟨⟨effect.memory, before ++ (effect.next ++ rest) :: after ++
        effect.tasks.map fun first => [first]⟩, infos, exits⟩

theorem serveBuild_reaches {runner : Runner} {outcome : Node Action Artifact → Outcome Hash}
    (steps : Nat) (build : Build Action Artifact Hash) :
    Relation.ReflTransGen (graph.BuildStep runner) build
      (graph.serveBuild runner outcome steps build) := by
  induction steps generalizing build with
  | zero => exact .refl
  | succ steps step =>
    rw [serveBuild]
    split
    · exact .refl
    · next before op rest after found =>
      have here : build = ⟨⟨build.state.memory, before ++ (op :: rest) :: after⟩, build.infos,
          build.exits⟩ := by
        rw [← firstTask_spec found]
      refine .head ?_ (step _)
      conv_lhs => rw [here]
      exact .run _ rfl

end ActionGraph

end Jst.Execution.Executor
