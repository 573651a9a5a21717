import Jst.Target.Stages
/-!
# Results of rules

What the rules make of the stages of the targets they depend on: user-defined rules by `RESULT`, and
the built-in rules `generic`, `install`, `tree`, `tree_overlay`, `file_gen`, `symlink` and
`configure`. The fields of a target have been read and evaluated, the target is tainted as its
dependencies are, and an artifact is whatever the rule creates.
-/
namespace Jst.Target

open SortedMap Path

variable {Artifact : Type} [DecidableEq Artifact]

/-- Why a rule yields nothing. -/
inductive RuleError where
  /-- An argument of `RESULT`, or a tree, is not what it should be. -/
  | tree (error : TreeError)
  | path (location : Str)
  | noOutputs
  | notDisjoint (outputs : List Str)
  | notOne (location : Str)
  | upwards (data : Str)
deriving DecidableEq

/-- A conflict in a stage is an error. -/
def checkConflict (stage : Stage Artifact) : Except RuleError (Stage Artifact) :=
  match treeConflict stage.keys with
  | some subtree => .error (.tree (.conflict subtree))
  | none => .ok stage

/-- `RESULT`, the artifacts or the runfiles. -/
def resultStage (val : Option (Stage (Option Artifact))) : Except RuleError (Stage Artifact) :=
  match val with
  | none => .error (.tree .notMap)
  | some map =>
    match artifactsOf map.entries with
    | .error error => .error (.tree error)
    | .ok artifacts =>
      match artifactsTreeFrom .empty artifacts with
      | .error location => .error (.path location)
      | .ok stage => checkConflict stage

def result (artifacts runfiles : Option (Stage (Option Artifact))) (providesIsMap : Bool) :
    Except RuleError (Analysed Artifact) := do
  let artifacts ← resultStage artifacts
  let runfiles ← resultStage runfiles
  if providesIsMap then return { artifacts := artifacts, runfiles := runfiles }
  else throw (.tree .notMap)

/-- `GenericRuleWithDeps`, the inputs of the action. -/
def genericInputs (dependencies : List (Analysed Artifact)) : Stage Artifact :=
  let inputs := dependencies.foldl (fun inputs dependency => inputs.overlay dependency.runfiles) .empty
  dependencies.foldl (fun inputs dependency => inputs.overlay dependency.artifacts) inputs

/-- `GenericRuleWithDeps`, the artifacts of the action. -/
def genericArtifacts (artifactOf : Str → Artifact) (outputs : List Str) : Stage Artifact :=
  ⟨emplaceAll (outputs.map fun path => (path, artifactOf path)) [], emplaceAll_ascending _ .nil⟩

/-- `GenericRuleWithDeps`; an artifact is an output of the one action. -/
def genericRule (artifactOf : Str → Artifact) (outs outDirs : List Str)
    (dependencies : List (Analysed Artifact)) : Except RuleError (Analysed Artifact) := do
  let outs := outs.map toNormalPath
  let outDirs := outDirs.map toNormalPath
  if outs.isEmpty && outDirs.isEmpty then throw .noOutputs
  let intersection := outs.filter (· ∈ outDirs)
  if !intersection.isEmpty then throw (.notDisjoint intersection)
  let _ ← checkConflict (genericInputs dependencies)
  let artifacts ← checkConflict (genericArtifacts artifactOf (outs ++ outDirs))
  return { artifacts := artifacts, runfiles := .empty }

/-- `InstallRuleWithDeps`, a stage laid upon those before it. -/
def layUpon (stage toStage : Stage Artifact) : Except RuleError (Stage Artifact) :=
  match stage.findConflictingDuplicate toStage with
  | some path => .error (.tree (.staging path))
  | none => .ok (stage.overlay toStage)

/-- `InstallRuleWithDeps`, the dependencies. -/
def installDeps (stage : Stage Artifact) :
    List (Analysed Artifact) → Except RuleError (Stage Artifact)
  | [] => .ok stage
  | dependency :: dependencies => do
    installDeps (← layUpon stage dependency.runfiles) dependencies

/-- `InstallRuleWithDeps`, the artifact that is staged for a file. -/
def installFile (path : Str) (target : Analysed Artifact) : Except RuleError Artifact :=
  let artifacts := if target.artifacts.entries.isEmpty then target.runfiles else target.artifacts
  match artifacts.entries with
  | [(_, artifact)] => .ok artifact
  | _ => .error (.notOne path)

/-- `InstallRuleWithDeps`, the files. -/
def installFiles (stage filesStage : Stage Artifact) :
    List (Str × Analysed Artifact) → Except RuleError (Stage Artifact)
  | [] => .ok filesStage
  | (path, target) :: files =>
    match find path stage.entries with
    | some _ => .error (.tree (.staging path))
    | none => do
      let artifact ← installFile path target
      installFiles stage
        ⟨emplace path artifact filesStage.entries, emplace_ascending _ _ filesStage.ordered⟩ files

/-- `InstallRuleWithDeps`, a target below a directory. -/
def installSubdir (directory : Str) (target : Analysed Artifact) : Stage Artifact :=
  let below := fun (entry : Str × Artifact) => (toNormalPath (append directory entry.1), entry.2)
  ⟨emplaceAll ((target.artifacts.entries ++ target.runfiles.entries).map below) [],
    emplaceAll_ascending _ .nil⟩

/-- `InstallRuleWithDeps`, the directories. -/
def installDirs (stage : Stage Artifact) :
    List (Analysed Artifact × Str) → Except RuleError (Stage Artifact)
  | [] => .ok stage
  | (target, directory) :: dirs => do
    installDirs (← layUpon stage (installSubdir directory target)) dirs

/-- `InstallRuleWithDeps`. -/
def installRule (deps : List (Analysed Artifact)) (files : List (Str × Analysed Artifact))
    (dirs : List (Analysed Artifact × Str)) : Except RuleError (Analysed Artifact) := do
  let stage ← installDeps .empty deps
  let filesStage ← installFiles stage .empty files
  let stage ← installDirs (stage.overlay filesStage) dirs
  let stage ← checkConflict stage
  return { artifacts := stage, runfiles := stage }

/-- A target with one artifact. -/
def single (name : Str) (artifact : Artifact) : Analysed Artifact where
  artifacts := ⟨[(name, artifact)], pairwise_singleton _ _⟩
  runfiles := ⟨[(name, artifact)], pairwise_singleton _ _⟩

/-- `TreeRuleWithDeps`, for a tree. -/
def treeRule (treeArtifact : TreeContent Artifact → Artifact) (name : Str)
    (dependencies : List (Analysed Artifact)) : Except RuleError (Analysed Artifact) :=
  match treeOfDependencies dependencies with
  | .error error => .error (.tree error)
  | .ok content => .ok (single name (treeArtifact content))

/-- `TreeRuleWithDeps`, for an overlay of trees, disjoint or not. -/
def treeOverlayRule (overlayArtifact : List (TreeContent Artifact) → Artifact) (name : Str)
    (dependencies : List (Analysed Artifact)) : Analysed Artifact :=
  single name (overlayArtifact (treesOfOverlay dependencies))

/-- `BlobGenRuleWithDeps`; what is generated is a file or a symbolic link. -/
def blobGenRule (blobArtifact : Str → Artifact) (isSymlink : Bool) (name data : Str) :
    Except RuleError (Analysed Artifact) :=
  if isSymlink && !pathIsNonUpwards data then .error (.upwards data)
  else .ok (single name (blobArtifact data))

/-- A rule with what it is applied to. -/
inductive Rule (Artifact : Type) where
  | user (dependencies : List (Analysed Artifact))
    (artifacts runfiles : Option (Stage (Option Artifact))) (providesIsMap : Bool)
  | generic (artifactOf : Str → Artifact) (outs outDirs : List Str)
    (dependencies : List (Analysed Artifact))
  | install (deps : List (Analysed Artifact)) (files : List (Str × Analysed Artifact))
    (dirs : List (Analysed Artifact × Str))
  | tree (treeArtifact : TreeContent Artifact → Artifact) (name : Str)
    (dependencies : List (Analysed Artifact))
  /-- `tree_overlay` and `disjoint_tree_overlay`. -/
  | treeOverlay (overlayArtifact : List (TreeContent Artifact) → Artifact) (name : Str)
    (dependencies : List (Analysed Artifact))
  /-- `file_gen` and `symlink`. -/
  | blobGen (blobArtifact : Str → Artifact) (isSymlink : Bool) (name data : Str)
    (dependencies : List (Analysed Artifact))
  | configure (target : Analysed Artifact)

/-- The targets a rule depends on. -/
def Rule.dependencies : Rule Artifact → List (Analysed Artifact)
  | user dependencies _ _ _ => dependencies
  | generic _ _ _ dependencies => dependencies
  | install deps files dirs => deps ++ files.map snd ++ dirs.map fst
  | tree _ _ dependencies => dependencies
  | treeOverlay _ _ dependencies => dependencies
  | blobGen _ _ _ _ dependencies => dependencies
  | configure target => [target]

/-- The result of a rule. -/
def Rule.analyse : Rule Artifact → Except RuleError (Analysed Artifact)
  | user _ artifacts runfiles providesIsMap => result artifacts runfiles providesIsMap
  | generic artifactOf outs outDirs dependencies => genericRule artifactOf outs outDirs dependencies
  | install deps files dirs => installRule deps files dirs
  | tree treeArtifact name dependencies => treeRule treeArtifact name dependencies
  | treeOverlay overlayArtifact name dependencies =>
    .ok (treeOverlayRule overlayArtifact name dependencies)
  | blobGen blobArtifact isSymlink name data _ => blobGenRule blobArtifact isSymlink name data
  | configure target => .ok target

end Jst.Target
