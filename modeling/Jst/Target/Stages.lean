import Jst.Data.SortedMap
import Jst.Expression.LinkedMap
import Jst.Utils.Path
/-!
# Stages of targets

A stage maps locations to artifacts. `artifacts_tree` and `tree_conflict` check stages, and trees
are built from stages in `ExprToTree` and in the rules for trees and tree overlays. Artifacts are
only compared here.
-/
namespace Jst.Target

open SortedMap Path

/-- A stage: an expression map whose values are artifacts. -/
structure Stage (Artifact : Type) where
  entries : List (Str × Artifact)
  ordered : Ascending entries

namespace Stage

variable {Artifact : Type}

/-- The stage without entries. -/
def empty : Stage Artifact := ⟨[], .nil⟩

/-- The locations. -/
def keys (stage : Stage Artifact) : List Str := stage.entries.map fst

/-- `map_t{next, content}` — the entries of the second stage take precedence. -/
def overlay (next content : Stage Artifact) : Stage Artifact :=
  ⟨union content.entries next.entries, union_ascending _ next.ordered⟩

def findConflictingDuplicate [DecidableEq Artifact] (stage other : Stage Artifact) : Option Str :=
  Expression.Object.conflict stage.entries other.entries

end Stage

variable {Artifact : Type}

/-- The paths that `parent_path` yields again and again, as long as they are not empty. Every one is
shorter, so that no more steps are needed than the path has bytes. -/
def parentsUpTo : Nat → Str → List Str
  | 0, _ => []
  | steps + 1, path =>
    let parent := parentPath path
    if parent.isEmpty then [] else parent :: parentsUpTo steps parent

/-- `tree_conflict`, the inner loop. -/
def parents (path : Str) : List Str := parentsUpTo path.length path

/-- `tree_conflict`, the loop over the paths; blocked are the elements of the paths before. -/
def treeConflictFrom (size : Nat) (blocked : List (List Str)) : List Str → Option Str
  | [] => none
  | path :: rest =>
    if path = here ∧ 1 < size then some here
    else if isAbsolute path then some path
    else if (elements path).head? = some up then some path
    else if elements path ∈ blocked then some path
    else
      match (parents path).find? fun parent => elements parent ∈ elements path :: blocked with
      | some parent => some parent
      | none => treeConflictFrom size (elements path :: blocked) rest

/-- `BuildMaps::Target::Utils::tree_conflict`, on the locations of a map. -/
def treeConflict (keys : List Str) : Option Str := treeConflictFrom keys.length [] keys

/-- `artifacts_tree`, the loop. -/
def artifactsTreeFrom [DecidableEq Artifact] (result : Stage Artifact) :
    List (Str × Artifact) → Except Str (Stage Artifact)
  | [] => .ok result
  | (key, artifact) :: rest =>
    let location := toNormalPath key
    match find location result.entries with
    | some other =>
      if other = artifact then artifactsTreeFrom result rest else .error location
    | none =>
      artifactsTreeFrom ⟨emplace location artifact result.entries, emplace_ascending _ _ result.ordered⟩
        rest

def artifactsTree [DecidableEq Artifact] (stage : Stage Artifact) : Except Str (Stage Artifact) :=
  artifactsTreeFrom .empty stage.entries

/-- What a `Tree` is made of: the artifacts by path. -/
abbrev TreeContent (Artifact : Type) := List (Str × Artifact)

/-- The artifacts of a map: every one is inserted under its normal path unless there is one. -/
def treeContent (entries : List (Str × Artifact)) : TreeContent Artifact :=
  entries.foldl (fun content entry => emplace (toNormalPath entry.1) entry.2 content) []

/-- Why there is no tree. -/
inductive TreeError where
  | notMap
  | notArtifact (path : Str)
  | conflict (subtree : Str)
  | staging (path : Str)
deriving DecidableEq

/-- The check that is made before a tree is. -/
def checkedTree (keys : List Str) (content : TreeContent Artifact) :
    Except TreeError (TreeContent Artifact) :=
  match treeConflict keys with
  | some subtree => .error (.conflict subtree)
  | none => .ok content

/-- `ExprToTree`, the values that have to be artifacts. -/
def artifactsOf : List (Str × Option Artifact) → Except TreeError (List (Str × Artifact))
  | [] => .ok []
  | (path, none) :: _ => .error (.notArtifact path)
  | (path, some artifact) :: rest => do
    let artifacts ← artifactsOf rest
    return (path, artifact) :: artifacts

/-- `ExprToTree`. The argument is a map or not, and its values are artifacts or not. -/
def exprToTree (val : Option (Stage (Option Artifact))) : Except TreeError (TreeContent Artifact) :=
  match val with
  | none => .error .notMap
  | some map => do
    let artifacts ← artifactsOf map.entries
    checkedTree map.keys (treeContent artifacts)

/-- The stages of an analysed target. -/
structure Analysed (Artifact : Type) where
  /-- `Artifacts()`. -/
  artifacts : Stage Artifact
  /-- `RunFiles()`. -/
  runfiles : Stage Artifact

/-- `TreeRuleWithDeps`, what a dependency adds to the stage of a tree. -/
def Analysed.toStage (dependency : Analysed Artifact) : Stage Artifact :=
  dependency.runfiles.overlay dependency.artifacts

/-- `TreeRuleWithDeps`, the loop over the dependencies of a tree. -/
def collectStage [DecidableEq Artifact] (stage : Stage Artifact) :
    List (Analysed Artifact) → Except TreeError (Stage Artifact)
  | [] => .ok stage
  | dependency :: dependencies =>
    match stage.findConflictingDuplicate dependency.toStage with
    | some path => .error (.staging path)
    | none => collectStage (stage.overlay dependency.toStage) dependencies

/-- `TreeRuleWithDeps`, the tree of a tree target. -/
def treeOfDependencies [DecidableEq Artifact] (dependencies : List (Analysed Artifact)) :
    Except TreeError (TreeContent Artifact) := do
  let stage ← collectStage .empty dependencies
  checkedTree stage.keys (treeContent stage.entries)

/-- `TreeRuleWithDeps`, the trees of a tree overlay target. -/
def treesOfOverlay (dependencies : List (Analysed Artifact)) : List (TreeContent Artifact) :=
  dependencies.map fun dependency => treeContent dependency.artifacts.entries

end Jst.Target
