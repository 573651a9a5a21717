import Jst.Execution.TreeReader
/-!
# Listing trees

`TreeReader` for any reader of trees: the direct entries of a tree, and all the leaves below it.
Both hand a function that stores an entry to `TreeReaderUtils::ReadObjectInfos`, which stops as soon
as that function fails. The recursion stops when its fuel runs out.
-/
namespace Jst.Execution

open Tree

/-- `TreeReader::impl_`, as far as it reads trees. -/
structure TreeReader (Hash : Type) where
  /-- `IsNativeProtocol`. -/
  native : Bool
  readDirectory : ArtifactDigest Hash → Option (Directory Hash)
  readGitTree : ArtifactDigest Hash → Option (GroupedEntries Hash)
  hashFile : Str → Hash

/-- The reader of a store. -/
def Formats.reader {Hash : Type} [DecidableEq Hash] (formats : Formats Hash)
    (source : Store Hash) : TreeReader Hash where
  native := formats.native
  readDirectory := formats.readDirectory source
  readGitTree := formats.readGitTree source
  hashFile := formats.hashFile

structure ReadTreeResult (Hash : Type) where
  paths : List Str
  infos : List (ObjectInfo Hash)

variable {Hash State : Type}

/-- `emplace_back` on the paths and the infos. -/
def ReadTreeResult.store (path : Str) (info : ObjectInfo Hash) (result : ReadTreeResult Hash) :
    ReadTreeResult Hash where
  paths := result.paths ++ [path]
  infos := result.infos ++ [info]

/-- The entries of a `Directory` in the order in which they are stored; an entry with a digest that
is not valid has no info. -/
def Directory.objectInfos (hashFile : Str → Hash) (directory : Directory Hash) :
    List (Str × Option (ObjectInfo Hash)) :=
  (directory.files.map fun (name, hash, isExecutable) =>
    (name, hash.map (directoryInfo (if isExecutable then .executable else .file)))) ++
  (directory.symlinks.map fun (name, target) =>
    (name, some (directoryInfo .symlink (hashFile target)))) ++
  (directory.directories.map fun (name, hash) => (name, hash.map (directoryInfo .tree)))

/-- `TreeReaderUtils::ReadObjectInfos` — hand the entries on one by one. -/
def readObjectInfos (infos : List (Str × Option (ObjectInfo Hash)))
    (storeInfo : Str → ObjectInfo Hash → State → Option State) (state : State) : Option State :=
  infos.foldlM (fun state (name, info) => info.bind fun info => storeInfo name info state) state

/-- The entries of a git tree in the order in which they are stored. -/
def gitObjectInfos (entries : GroupedEntries Hash) : List (Str × Option (ObjectInfo Hash)) :=
  (gitInfos entries).map fun (name, info) => (name, some info)

def isDirectoryEmpty (directory : Directory Hash) : Bool :=
  directory.files.isEmpty && directory.directories.isEmpty && directory.symlinks.isEmpty

namespace TreeReader

variable (reader : TreeReader Hash)

/-- `TreeReader::ReadDirectTreeEntries`. A tree that cannot be read yields an empty result. -/
def readDirectTreeEntries (digest : ArtifactDigest Hash) (parent : Str) :
    Option (ReadTreeResult Hash) :=
  let storeInfo := fun path info result =>
    some (ReadTreeResult.store (Path.append parent path) info result)
  if !reader.native then
    match reader.readDirectory digest with
    | some tree => readObjectInfos (tree.objectInfos reader.hashFile) storeInfo ⟨[], []⟩
    | none => some ⟨[], []⟩
  else
    match reader.readGitTree digest with
    | some tree => readObjectInfos (gitObjectInfos tree) storeInfo ⟨[], []⟩
    | none => some ⟨[], []⟩

def readObjectInfosRecursively (includeTrees : Bool) :
    Nat → Str → ArtifactDigest Hash → ReadTreeResult Hash → Option (ReadTreeResult Hash)
  | 0, _, _, _ => none
  | fuel + 1, parent, digest, result =>
    let internalStore := fun path (info : ObjectInfo Hash) result =>
      if info.type = .tree then
        readObjectInfosRecursively includeTrees fuel (Path.append parent path) info.digest result
      else some (ReadTreeResult.store (Path.append parent path) info result)
    let storeEmpty := fun (empty : Bool) =>
      if includeTrees && empty then
        ReadTreeResult.store parent { digest := digest, type := .tree, failed := false } result
      else result
    if !reader.native then
      match reader.readDirectory digest with
      | some tree => readObjectInfos (tree.objectInfos reader.hashFile) internalStore
          (storeEmpty (isDirectoryEmpty tree))
      | none => none
    else
      match reader.readGitTree digest with
      | some tree => readObjectInfos (gitObjectInfos tree) internalStore (storeEmpty tree.isEmpty)
      | none => none

def recursivelyReadTreeLeafs (fuel : Nat) (digest : ArtifactDigest Hash) (parent : Str)
    (includeTrees : Bool) : Option (ReadTreeResult Hash) :=
  reader.readObjectInfosRecursively includeTrees fuel parent digest ⟨[], []⟩

end TreeReader

end Jst.Execution
