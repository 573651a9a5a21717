import Jst.Target.Stages
/-!
# The working directory of an action

Before an action is made, an empty tree is staged at its working directory unless the stage already
implies a directory there. The working directory is compared with the locations as it is written.
-/
namespace Jst.Target

open SortedMap Path

variable {Artifact : Type}

/-- `add_dir_for`, the check of one location: whether a tree for the working directory cannot be
added beside it. -/
def blocksDir (cwd path : Str) : Bool :=
  path.isEmpty || path = here ||
    (cwd :: parents cwd).any (fun c => elements c = elements path) ||
    (path :: parents path).any (fun p => elements p = elements cwd)

/-- `BuildMaps::Target::Utils::add_dir_for`. An artifact is made of a tree by `CreateTree`. -/
def addDirFor (createTree : TreeContent Artifact → Artifact) (cwd : Str) (stage : Stage Artifact)
    (trees : List (TreeContent Artifact)) : Stage Artifact × List (TreeContent Artifact) :=
  if cwd.isEmpty || cwd = here then (stage, trees)
  else if stage.keys.any (blocksDir cwd) then (stage, trees)
  else
    let cwdTree : Stage Artifact := ⟨[(cwd, createTree [])], by simp [Ascending]⟩
    (stage.overlay cwdTree, trees ++ [[]])

end Jst.Target
