import Jst.Tree.Paths
/-!
# Tree structures

`TreeStructureUtils::Compute` replaces all blobs of a git tree by empty ones. The structures of all
subtrees are kept in a cache, next to the storage that the trees are read from and written to. The
hashes are those of git; with any other hash function, no digest is one of a tree. Reading and
writing a file does not fail, and the generations of the storage are not told apart: what is looked
up is uplinked.
-/
namespace Jst.TreeStructure

open Tree

/-- The objects of git by their ids, without hash collisions. -/
structure GitObjects (Hash : Type) extends Cas Hash where
  blobId : Str → Hash
  blob : Hash → Option Str
  blobAddressed : ∀ hash content, blob hash = some content ↔ blobId content = hash

/-- The order in which an `unordered_map` lists its groups. -/
structure ListingOrder (Hash : Type) where
  list : GroupedEntries Hash → GroupedEntries Hash
  perm : ∀ groups, (list groups).Perm groups

/-- A storage with the cache of structures: which objects are there, and what is in the cache. -/
structure Storage (Hash : Type) where
  /-- `CAS().TreePath` — the trees. -/
  trees : Hash → Bool
  /-- `CAS().BlobPathNoSync` — the blobs that are executable, and those that are not. -/
  blobs : Bool → Hash → Bool
  /-- `TreeStructureCache::file_storage_`. -/
  structures : Hash → Option (ArtifactDigest Hash)

/-- What `Compute` fails with, with the hashes that the error message shows. -/
inductive Failure (Hash : Type) where
  | notGitTree (tree : Hash)
  | notInStorage (tree : Hash)
  | notParsed (tree : Hash)
  | notCached (tree structured : Hash)
  /-- The trees are nested deeper than the evaluation was allowed to go. -/
  | unfinished

variable {Hash : Type} [DecidableEq Hash]

namespace Storage

/-- `CAS().StoreBlob`. -/
def storeBlob (objects : GitObjects Hash) (content : Str) (isExecutable : Bool)
    (storage : Storage Hash) : ArtifactDigest Hash × Storage Hash :=
  (⟨objects.blobId content, false⟩, { storage with
      blobs := fun executable hash =>
        storage.blobs executable hash ||
          (executable = isExecutable && hash = objects.blobId content) })

/-- `CAS().StoreTree`. -/
def storeTree (objects : GitObjects Hash) (content : GitTree Hash) (storage : Storage Hash) :
    ArtifactDigest Hash × Storage Hash :=
  (⟨objects.treeId content, true⟩,
    { storage with trees := fun hash => storage.trees hash || hash = objects.treeId content })

/-- `CAS().BlobPath` — a blob is found whether it is executable or not. -/
def hasBlob (storage : Storage Hash) (hash : Hash) : Bool :=
  storage.blobs true hash || storage.blobs false hash

def isInCas (storage : Storage Hash) (digest : ArtifactDigest Hash) : Bool :=
  if digest.isTree then storage.trees digest.hash else storage.hasBlob digest.hash

/-- `TreeStructureCache::Get` — both objects have to be in the storage. -/
def getStructure (storage : Storage Hash) (key : ArtifactDigest Hash) :
    Option (ArtifactDigest Hash) :=
  if storage.isInCas key then
    match storage.structures key.hash with
    | some value => if storage.isInCas value then some value else none
    | none => none
  else none

/-- `TreeStructureCache::Set` — an entry that is there is not overwritten. -/
def setStructure (key value : ArtifactDigest Hash) (storage : Storage Hash) :
    Bool × Storage Hash :=
  match storage.getStructure key with
  | some result => (result = value, storage)
  | none =>
    if storage.isInCas key && storage.isInCas value then
      (true, { storage with
        structures := fun hash =>
          if hash = key.hash then (storage.structures key.hash).or (some value)
          else storage.structures hash })
    else (false, storage)

end Storage

/-- What computes a structure: a result or a failure, and the storage afterwards. -/
abbrev Computation (Hash : Type) := Storage Hash →
  Except (Failure Hash) (ArtifactDigest Hash) × Storage Hash

/-- The body of the loop of `Compute` — the structure of one entry. -/
def structureEntry (objects : GitObjects Hash) (compute : ArtifactDigest Hash → Computation Hash)
    (rawId : Hash) (type : ObjectType) : Computation Hash := fun storage =>
  if type = .tree then compute ⟨rawId, true⟩ storage
  else
    let (digest, storage) := storage.storeBlob objects [] (type = .executable)
    (.ok digest, storage)

/-- The entries of a map, one after the other. -/
def listEntries (groups : GroupedEntries Hash) : List (Hash × Str × ObjectType) :=
  groups.flatMap fun group => group.2.map fun entry => (group.1, entry)

/-- The loop of `Compute` over the entries of a tree. -/
def structureEntries (objects : GitObjects Hash)
    (compute : ArtifactDigest Hash → Computation Hash) :
    List (Hash × Str × ObjectType) → Storage Hash →
      Except (Failure Hash) (List (Hash × Str × ObjectType)) × Storage Hash
  | [], storage => (.ok [], storage)
  | (rawId, name, type) :: rest, storage =>
    match structureEntry objects compute rawId type storage with
    | (.error failure, storage) => (.error failure, storage)
    | (.ok digest, storage) =>
      match structureEntries objects compute rest storage with
      | (.error failure, storage) => (.error failure, storage)
      | (.ok entries, storage) => (.ok ((digest.hash, name, type) :: entries), storage)

/-- `Compute` after its loop — the structure is stored and put into the cache. -/
def storeStructure (objects : GitObjects Hash) (order : ListingOrder Hash)
    (tree : ArtifactDigest Hash) (entries : List (Hash × Str × ObjectType)) : Computation Hash :=
  fun storage =>
    let stored := storage.storeTree objects (createTree (order.list (Grouping.group entries)))
    match stored.2.setStructure tree stored.1 with
    | (true, storage) => (.ok stored.1, storage)
    | (false, storage) => (.error (.notCached tree.hash stored.1.hash), storage)

/-- `TreeStructureUtils::Compute`, for trees nested at most so many levels deep. -/
def compute (objects : GitObjects Hash) (order : ListingOrder Hash) :
    (depth : Nat) → ArtifactDigest Hash → Computation Hash
  | 0, _, storage => (.error .unfinished, storage)
  | depth + 1, tree, storage =>
    if tree.isTree = false then (.error (.notGitTree tree.hash), storage)
    else
      match storage.getStructure tree with
      | some result => (.ok result, storage)
      | none =>
        if storage.trees tree.hash = false then (.error (.notInStorage tree.hash), storage)
        else
          match objects.retrieve tree.hash with
          | none => (.error (.notParsed tree.hash), storage)
          | some content =>
            match structureEntries objects (compute objects order depth)
              (listEntries (order.list (readDirectTree content))) storage with
            | (.error failure, storage) => (.error failure, storage)
            | (.ok entries, storage) => storeStructure objects order tree entries storage

end Jst.TreeStructure
