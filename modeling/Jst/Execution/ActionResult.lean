import Jst.Data.Bytes
/-!
# Action results and how a local action writes them

An `ActionResult` names the outputs of an action in several fields, which depend on the protocol
version. `local_action.cpp` fills them from what lies at the output paths after the action ran. The
digests of what is stored on the way are given with the outputs.
-/
namespace Jst.Execution

structure OutputFile (Digest : Type) where
  path : Str
  digest : Digest
  isExecutable : Bool
deriving DecidableEq

structure OutputSymlink where
  path : Str
  target : Str
deriving DecidableEq

structure OutputDirectory (Digest : Type) where
  path : Str
  treeDigest : Digest
deriving DecidableEq

/-- `ActionResult`, as far as it is read. -/
structure ActionResult (Digest : Type) where
  outputFiles : List (OutputFile Digest)
  outputSymlinks : List OutputSymlink
  outputFileSymlinks : List OutputSymlink
  outputDirectorySymlinks : List OutputSymlink
  outputDirectories : List (OutputDirectory Digest)
  stdoutDigest : Option Digest
  stderrDigest : Option Digest
  exitCode : Int
deriving DecidableEq

/-- A result without outputs. -/
def ActionResult.empty {Digest : Type} (stdout stderr : Option Digest) (exitCode : Int) :
    ActionResult Digest where
  outputFiles := []
  outputSymlinks := []
  outputFileSymlinks := []
  outputDirectorySymlinks := []
  outputDirectories := []
  stdoutDigest := stdout
  stderrDigest := stderr
  exitCode := exitCode

/-- What lies at a path after an action ran, as it was stored. -/
inductive BuiltOutput (Digest : Type) where
  | file (digest : Digest) (isExecutable : Bool)
  | symlink (target : Str)
  | directory (treeDigest : Digest)
deriving DecidableEq

inductive RequestMode where
  | v2_0
  | v2_1
  | bestEffort
deriving DecidableEq

/-- The output paths of a local action. -/
structure OutputPaths where
  /-- `output_paths_`, for v2.1. -/
  paths : List Str
  /-- `output_files_`, otherwise. -/
  files : List Str
  /-- `output_dirs_`, otherwise. -/
  dirs : List Str

namespace LocalAction

variable {Digest : Type} (validSymlink : Str → Bool) (built : Str → Option (BuiltOutput Digest))

/-- `CollectOutputPath` — what lies at a path, unless it is an invalid symbolic link. -/
def collectOutputPath (path : Str) : Option (BuiltOutput Digest) :=
  match built path with
  | some (.symlink target) => if validSymlink target then some (.symlink target) else none
  | other => other

def collectOutputFileOrSymlink (path : Str) : Option (BuiltOutput Digest) :=
  match collectOutputPath validSymlink built path with
  | some (.directory _) => none
  | other => other

def collectOutputDirOrSymlink (path : Str) : Option (BuiltOutput Digest) :=
  match collectOutputPath validSymlink built path with
  | some (.file _ _) => none
  | other => other

/-- An output is added to the generic fields. -/
def addOutput (path : Str) (output : BuiltOutput Digest) (result : ActionResult Digest) :
    ActionResult Digest :=
  match output with
  | .file digest isExecutable =>
    { result with outputFiles := result.outputFiles ++ [⟨path, digest, isExecutable⟩] }
  | .symlink target => { result with outputSymlinks := result.outputSymlinks ++ [⟨path, target⟩] }
  | .directory treeDigest =>
    { result with outputDirectories := result.outputDirectories ++ [⟨path, treeDigest⟩] }

/-- An output file is added, a symbolic link to the field for files. -/
def addFileOrSymlink (mode : RequestMode) (path : Str) (output : BuiltOutput Digest)
    (result : ActionResult Digest) : ActionResult Digest :=
  match output with
  | .symlink target =>
    let result := if mode = .bestEffort then addOutput path (.symlink target) result else result
    { result with outputFileSymlinks := result.outputFileSymlinks ++ [⟨path, target⟩] }
  | other => addOutput path other result

/-- An output directory is added, a symbolic link to the field for directories. -/
def addDirOrSymlink (mode : RequestMode) (path : Str) (output : BuiltOutput Digest)
    (result : ActionResult Digest) : ActionResult Digest :=
  match output with
  | .symlink target =>
    let result := if mode = .bestEffort then addOutput path (.symlink target) result else result
    { result with outputDirectorySymlinks := result.outputDirectorySymlinks ++ [⟨path, target⟩] }
  | other => addOutput path other result

/-- Outputs are collected one after the other, until one cannot be. -/
def collect (output : Str → Option (BuiltOutput Digest))
    (add : Str → BuiltOutput Digest → ActionResult Digest → ActionResult Digest) :
    List Str → ActionResult Digest → Bool × ActionResult Digest
  | [], result => (true, result)
  | path :: rest, result =>
    match output path with
    | none => (false, result)
    | some found => collect output add rest (add path found result)

/-- `CollectAndStoreOutputs` — whether all outputs could be collected, and what was collected. -/
def collectAndStoreOutputs (mode : RequestMode) (outputs : OutputPaths)
    (result : ActionResult Digest) : Bool × ActionResult Digest :=
  if mode = .v2_1 then
    collect (collectOutputPath validSymlink built) addOutput outputs.paths result
  else
    match collect (collectOutputFileOrSymlink validSymlink built) (addFileOrSymlink mode)
        outputs.files result with
    | (false, result) => (false, result)
    | (true, result) =>
      collect (collectOutputDirOrSymlink validSymlink built) (addDirOrSymlink mode) outputs.dirs
        result

end LocalAction

end Jst.Execution
