import Jst.Data.Uploads
import Jst.FileSystem.GitTreeUtils
import Jst.Remote.Batches
/-!
# Uploading git trees

`VerifyOrUploadTree` and `VerifyOrUploadGitArtifact` of the executor: of the entries of a tree,
those that the remote store misses are uploaded, after what is below them. The hashes are those of
git; with any other hash function, no digest is one of a tree. The remote store is an
`Uploads.Endpoint`.
-/
namespace Jst.Execution.GitUpload

open Jst.FileSystem.GitTreeUtils Jst.Uploads

/-- The format of git objects. -/
structure GitFormat (Hash : Type) where
  hashBlobData : Str → Hash
  hashTreeData : Str → Hash
  parse : Str → Option (List (TreeObjectEntry Hash))

/-- `ArtifactBlob` in memory. -/
structure ArtifactBlob where
  content : Str
  isTree : Bool
  isExecutable : Bool
deriving DecidableEq

def ArtifactBlob.fromMemory (type : Tree.ObjectType) (content : Str) : ArtifactBlob where
  content := content
  isTree := type = .tree
  isExecutable := type = .executable

variable {Hash World : Type}

/-- `GetDigest`. -/
def ArtifactBlob.digest (format : GitFormat Hash) (blob : ArtifactBlob) :
    Tree.ArtifactDigest Hash where
  hash := if blob.isTree then format.hashTreeData blob.content else format.hashBlobData blob.content
  isTree := blob.isTree

/-- `GetContentSize`. -/
def ArtifactBlob.contentSize (blob : ArtifactBlob) : Nat := blob.content.length

/-- Whether an object is one that an entry with a mode stands for. -/
def Fits : FileMode → GitObject Hash → Prop
  | .tree, object => ∃ entries, object = .tree entries
  | .other, _ => True
  | _, object => ∃ data, object = .blob data

/-- A repository with the data of its objects. -/
structure Repository (format : GitFormat Hash) extends GitCas Hash where
  /-- `GitCAS::ReadObject`. -/
  readData : Hash → Option Str
  readData_isSome : ∀ id, (readData id).isSome = (object id).isSome
  blob_data : ∀ id data, object id = some (.blob data) → readData id = some data ∧
    format.hashBlobData data = id
  tree_data : ∀ id entries, object id = some (.tree entries) → ∃ data, readData id = some data ∧
    format.parse data = some entries ∧ format.hashTreeData data = id
  modes : ∀ id entries, object id = some (.tree entries) → ∀ entry ∈ entries,
    ∀ found, object entry.id = some found → Fits entry.mode found

/-- The digest of an entry. -/
def entryDigest (entry : GitTreeEntry Hash) : Tree.ArtifactDigest Hash where
  hash := entry.rawId
  isTree := entry.type = .tree

/-- `BackMap` — the keys, and for each the entry that stands for it. -/
abbrev EntryMap (Hash : Type) := List (Tree.ArtifactDigest Hash × GitTreeEntry Hash)

variable [DecidableEq Hash]

/-- `ArtifactBlob::operator==`. -/
def ArtifactBlob.same (format : GitFormat Hash) (blob other : ArtifactBlob) : Bool :=
  blob.digest format = other.digest format && blob.isExecutable = other.isExecutable

def iterateReferences (backMap : EntryMap Hash) (keys : List (Tree.ArtifactDigest Hash)) :
    EntryMap Hash := backMap.filter fun (key, _) => key ∈ keys

/-- The orders in which the unordered containers are iterated over. -/
structure Orders (Hash World : Type) where
  entries : World → List (Str × GitTreeEntry Hash) → List (Str × GitTreeEntry Hash)
  references : World → EntryMap Hash → EntryMap Hash
  entries_perm : ∀ world list, (entries world list).Perm list
  references_perm : ∀ world list, (references world list).Perm list

namespace Repository

variable {format : GitFormat Hash} (repo : Repository format)
  (api : Endpoint ArtifactBlob (Tree.ArtifactDigest Hash) World) (orders : Orders Hash World)

/-- `BackMap::Make` on the entries of a tree — the first entry with a digest stands for all. The
size of an object that is not there cannot be read. -/
def makeBackMap (backMap : EntryMap Hash) :
    List (Str × GitTreeEntry Hash) → Option (EntryMap Hash)
  | [] => some backMap
  | (_, entry) :: rest =>
    if (repo.object entry.rawId).isNone then none
    else if backMap.any fun (key, _) => key = entryDigest entry then makeBackMap backMap rest
    else makeBackMap (backMap ++ [(entryDigest entry, entry)]) rest

/-- The loop of `VerifyOrUploadTree` over missing trees. -/
def processTrees
    (verifyOrUpload : GitTree Hash → Sent ArtifactBlob World → Bool × Sent ArtifactBlob World) :
    EntryMap Hash → Sent ArtifactBlob World → Bool × Sent ArtifactBlob World
  | [], state => (true, state)
  | (_, entry) :: rest, state =>
    if entry.type = .tree then
      match repo.entryTree entry false with
      | none => (false, state)
      | some tree =>
        let (success, state) := verifyOrUpload tree state
        if success then processTrees verifyOrUpload rest state else (false, state)
    else processTrees verifyOrUpload rest state

/-- The loop of `VerifyOrUploadTree` over missing entries, with `UpdateContainerAndUpload`. -/
def uploadEntries : EntryMap Hash → List ArtifactBlob → Sent ArtifactBlob World →
    Bool × List ArtifactBlob × Sent ArtifactBlob World
  | [], container, state => (true, container, state)
  | (_, entry) :: rest, container, state =>
    match repo.readData entry.rawId with
    | none => (false, container, state)
    | some content =>
      let (success, container, state) :=
        api.collect Remote.MessageLimits.maxGrpcLength ArtifactBlob.contentSize
          (ArtifactBlob.same format) container (.fromMemory entry.type content) state
      if success then uploadEntries rest container state else (false, container, state)

/-- `VerifyOrUploadTree`, from the loop over missing trees on. -/
def uploadMissing
    (verifyOrUpload : GitTree Hash → Sent ArtifactBlob World → Bool × Sent ArtifactBlob World)
    (missingEntries : EntryMap Hash) (state : Sent ArtifactBlob World) :
    Bool × Sent ArtifactBlob World :=
  let (success, state) := repo.processTrees verifyOrUpload missingEntries state
  if success then
    let (success, container, state) := repo.uploadEntries api missingEntries [] state
    if success then api.send container state else (false, state)
  else (false, state)

/-- `VerifyOrUploadTree` — a tree is nested less deep than one above its rank. -/
def verifyOrUploadTree :
    Nat → GitTree Hash → Sent ArtifactBlob World → Bool × Sent ArtifactBlob World
  | 0, _, state => (false, state)
  | fuel + 1, tree, state =>
    match repo.makeBackMap [] (orders.entries state.world tree.entries) with
    | none => (false, state)
    | some backMap =>
      let answer := api.missing (backMap.map fst) state.world
      let missingEntries := orders.references answer.2 (iterateReferences backMap answer.1)
      repo.uploadMissing api (verifyOrUploadTree fuel) missingEntries ⟨answer.2, state.uploaded⟩

end Repository

variable {format : GitFormat Hash} (api : Endpoint ArtifactBlob (Tree.ArtifactDigest Hash) World)
  (orders : Orders Hash World)

/-- The end of `VerifyOrUploadGitArtifact`. -/
def uploadContent (type : Tree.ObjectType) (state : Sent ArtifactBlob World) :
    Option Str → Bool × Sent ArtifactBlob World
  | none => (false, state)
  | some content => api.send [.fromMemory type content] state

/-- `VerifyOrUploadGitArtifact`, with what `ReadGitTree` and `ReadGitBlob` return. -/
def verifyOrUploadGitArtifact (tree : Option (Repository format × GitTree Hash))
    (blob : Option Str) (info : Tree.ObjectInfo Hash) (state : Sent ArtifactBlob World) :
    Bool × Sent ArtifactBlob World :=
  if info.digest.isTree then
    match tree with
    | none => (false, state)
    | some (repo, tree) =>
      let (success, state) :=
        repo.verifyOrUploadTree api orders (repo.rank tree.rawId + 1) tree state
      if success then uploadContent api info.type state (repo.readData tree.rawId)
      else (false, state)
  else uploadContent api info.type state blob

end Jst.Execution.GitUpload
