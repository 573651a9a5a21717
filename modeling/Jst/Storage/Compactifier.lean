import Jst.Storage.FileChunker
import Mathlib.Logic.Function.Basic
/-!
# Compactification of a storage generation

A generation keeps files, executables and trees under their hashes, and for large ones an entry that
lists the hashes of the parts to splice. `compactifier.cpp` removes what can be spliced, and splits
what is large. Hashes are abstract and have no collisions. The file system may fail to store a part
or an entry, or to remove a file, which is up to the `Faults` of a task. In compatible mode the
storages of trees are those of files, so that there are no tasks for trees.
-/
namespace Jst.Storage

/-- `ObjectType`, for the storages of a generation. -/
inductive StorageType where
  | file
  | executable
  | tree
deriving DecidableEq

/-- The types of the large storages: files and executables share one. -/
inductive LargeType where
  | file
  | tree
deriving DecidableEq

/-- The large storage of a type. -/
def StorageType.large : StorageType → LargeType
  | .file | .executable => .file
  | .tree => .tree

/-- The hash function of a storage. -/
structure Hashes (Hash : Type) where
  blob : Str → Hash
  tree : Str → Hash
  blob_injective : Function.Injective blob
  tree_injective : Function.Injective tree

/-- The hash of an object. -/
def Hashes.ofLarge {Hash : Type} (hashes : Hashes Hash) : LargeType → Str → Hash
  | .file => hashes.blob
  | .tree => hashes.tree

/-- `LocalCAS<false>` — what is stored in a generation. -/
structure LocalCas (Hash : Type) where
  objects : StorageType → Hash → Option Str
  entries : LargeType → Hash → Option (List Hash)

/-- What the file system fails to do during a task. -/
structure Faults (Hash : Type) where
  part : Hash → Bool
  entry : Bool
  remove : StorageType → Bool

section Tasks

variable {Hash : Type} [DecidableEq Hash]

namespace LocalCas

/-- An object is written to a storage. -/
def setObject (cas : LocalCas Hash) (type : StorageType) (hash : Hash) (object : Option Str) :
    LocalCas Hash :=
  { cas with
    objects := fun other =>
      if other = type then update (cas.objects type) hash object else cas.objects other }

/-- A large entry is written. -/
def setEntry (cas : LocalCas Hash) (type : LargeType) (hash : Hash) (parts : List Hash) :
    LocalCas Hash :=
  { cas with
    entries := fun other =>
      if other = type then update (cas.entries type) hash (some parts)
      else cas.entries other }

variable (hashes : Hashes Hash)

/-- `StoreBlob`, for a file that is not executable: what is available is not stored again. -/
def storeBlob (faults : Faults Hash) (content : Str) (cas : LocalCas Hash) :
    Option Hash × LocalCas Hash :=
  let hash := hashes.blob content
  if (cas.objects .file hash).isSome then (some hash, cas)
  else if faults.part hash then (none, cas)
  else (some hash, cas.setObject .file hash (some content))

/-- The parts are stored, until storing one fails. -/
def storeParts (faults : Faults Hash) : List Str → LocalCas Hash → Option (List Hash) × LocalCas Hash
  | [], cas => (some [], cas)
  | chunk :: rest, cas =>
    match cas.storeBlob hashes faults chunk with
    | (none, cas) => (none, cas)
    | (some part, cas) =>
      let (parts, cas) := storeParts faults rest cas
      (parts.map (part :: ·), cas)

def writeEntry (faults : Faults Hash) (type : LargeType) (hash : Hash) (parts : List Hash)
    (cas : LocalCas Hash) : Bool × LocalCas Hash :=
  if (cas.entries type hash).isSome then (true, cas)
  else if parts.length < 2 then (false, cas)
  else if faults.entry then (false, cas)
  else (true, cas.setEntry type hash parts)

/-- The file that is split: of files and executables the first one that exists. -/
def largeObject (type : LargeType) (hash : Hash) (cas : LocalCas Hash) : Option Str :=
  match type with
  | .tree => cas.objects .tree hash
  | .file => (cas.objects .file hash).or (cas.objects .executable hash)

variable (gearTable : UInt8 → UInt64)

/-- `LargeObjectCAS::Split` — whether the entry could be written is ignored. -/
def split (faults : Faults Hash) (type : LargeType) (hash : Hash) (cas : LocalCas Hash) :
    Option (List Hash) × LocalCas Hash :=
  match cas.entries type hash with
  | some parts => (some parts, cas)
  | none =>
    match cas.largeObject type hash with
    | none => (none, cas)
    | some content =>
      match cas.storeParts hashes faults (FileChunker.chunks gearTable content) with
      | (none, cas) => (none, cas)
      | (some parts, cas) => (some parts, (cas.writeEntry faults type hash parts).2)

end LocalCas

namespace Compactifier

/-- The check of `RemoveSpliced` — the spliced files are removed, until removing one fails. -/
def removeAll (faults : Faults Hash) (hash : Hash) : List StorageType → LocalCas Hash →
    Bool × LocalCas Hash
  | [], cas => (true, cas)
  | type :: rest, cas =>
    if (cas.objects type hash).isNone then removeAll faults hash rest cas
    else if faults.remove type then (false, cas)
    else removeAll faults hash rest (cas.setObject type hash none)

/-- `RemoveSpliced`, for one large entry. -/
def removeSpliced (faults : Faults Hash) (type : LargeType) (hash : Hash) (cas : LocalCas Hash) :
    Bool × LocalCas Hash :=
  if (cas.entries type hash).isNone then (true, cas)
  else
    match type with
    | .file => removeAll faults hash [.file, .executable] cas
    | .tree => removeAll faults hash [.tree] cas

variable (hashes : Hashes Hash) (gearTable : UInt8 → UInt64)

/-- `SplitLarge` — an object is split and removed, unless it has less than two parts. -/
def splitLarge (faults : Faults Hash) (type : StorageType) (key : Hash) (cas : LocalCas Hash) :
    Bool × LocalCas Hash :=
  match cas.objects type key with
  | none => (true, cas)
  | some content =>
    let digest := hashes.ofLarge type.large content
    match cas.split hashes gearTable faults type.large digest with
    | (none, cas) => (false, cas)
    | (some parts, cas) =>
      if parts.length < 2 then (true, cas)
      else if faults.remove type then (false, cas)
      else (true, cas.setObject type key none)

/-- The filter of `Compactifier::SplitLarge`. -/
def isLarge (threshold : Nat) (cas : LocalCas Hash) (type : StorageType) (hash : Hash) : Bool :=
  (cas.objects type hash).any fun content => threshold ≤ content.length

/-- A task for one large entry. -/
structure RemoveTask (Hash : Type) where
  type : LargeType
  hash : Hash
  faults : Faults Hash

/-- A task for one object. -/
structure SplitTask (Hash : Type) where
  type : StorageType
  hash : Hash
  faults : Faults Hash

/-- The tasks of `Compactifier::RemoveSpliced`, in the order in which they run. -/
def runRemovals (tasks : List (RemoveTask Hash)) (cas : LocalCas Hash) : LocalCas Hash :=
  tasks.foldl (fun cas task => (removeSpliced task.faults task.type task.hash cas).2) cas

/-- The tasks of `Compactifier::SplitLarge`, in the order in which they run. -/
def runSplits (tasks : List (SplitTask Hash)) (cas : LocalCas Hash) : LocalCas Hash :=
  tasks.foldl (fun cas task =>
    (splitLarge hashes gearTable task.faults task.type task.hash cas).2) cas

/-- Removal of spliced objects followed by splitting of large ones: the objects to split are scanned
after the removal. A run that stops early has fewer tasks. -/
def compactify (threshold : Nat) (removals : List (RemoveTask Hash)) (splits : List (SplitTask Hash))
    (cas : LocalCas Hash) : LocalCas Hash :=
  let cas := runRemovals removals cas
  runSplits hashes gearTable (splits.filter fun task => isLarge threshold cas task.type task.hash) cas

end Compactifier

end Tasks

end Jst.Storage
