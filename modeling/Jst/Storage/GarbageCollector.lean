import Mathlib.Logic.Function.Basic
import Jst.Data.Bytes
import Jst.Data.Interruptible
/-!
# Garbage collection

`GarbageCollector::TriggerGarbageCollection` on the directories below the cache root. The
generations are numbered from the youngest; what is to be removed is first renamed to a directory of
the process. Every request to the operating system has an outcome of its own, and without a further
outcome the process has been stopped. What is in a storage and in an ephemeral directory is not
looked into.
-/
namespace Jst.Storage

open Interruptible Interruptible.Program

variable {Content Ephemeral : Type}

/-- The directory of a generation: its storages, and the ephemeral directory if there is one. -/
structure Generation (Content Ephemeral : Type) where
  content : Content
  ephemeral : Option Ephemeral
deriving DecidableEq

/-- What is going to be removed. -/
inductive Removed (Content Ephemeral : Type) where
  | generation (whole : Generation Content Ephemeral)
  | ephemeral (directory : Ephemeral)

/-- The name of a directory to be removed: `remove-me`, the id of the process and a number. -/
structure RemoveMe where
  owner : Str
  counter : Nat
deriving DecidableEq

/-- The directories below `StorageConfig::CacheRoot`. -/
structure CacheRoot (Content Ephemeral : Type) where
  /-- `GenerationCacheRoot` — the directories of the generations. -/
  generations : Nat → Option (Generation Content Ephemeral)
  /-- The directories to be removed, as a `directory_iterator` lists them. -/
  removeMe : List (RemoveMe × Removed Content Ephemeral)

/-- The outcome of a request to the operating system. -/
structure Outcome (Content : Type) where
  success : Bool
  /-- What a compactification makes of the storages of a generation, up to where it got. -/
  compactified : Content → Content

/-- A part of a garbage collection. -/
abbrev Collection (Content Ephemeral : Type) : Type → Type :=
  Program (Outcome Content) (CacheRoot Content Ephemeral)

namespace CacheRoot

/-- The cache root with another directory of a generation, or none. -/
def setGeneration (root : CacheRoot Content Ephemeral) (index : Nat)
    (directory : Option (Generation Content Ephemeral)) : CacheRoot Content Ephemeral where
  generations := update root.generations index directory
  removeMe := root.removeMe

@[simp]
theorem generations_setGeneration (root : CacheRoot Content Ephemeral) (index : Nat)
    (directory : Option (Generation Content Ephemeral)) :
    (root.setGeneration index directory).generations =
      update root.generations index directory := rfl

/-- The directory to be removed with a name. -/
def findRemoveMe (root : CacheRoot Content Ephemeral) (name : RemoveMe) :
    Option (Removed Content Ephemeral) :=
  (root.removeMe.find? fun entry => entry.1 = name).map snd

/-- `rename` to a directory to be removed, of what has been taken from `rest`. -/
def addRemoveMe (isEmpty : Removed Content Ephemeral → Bool) (name : RemoveMe)
    (entry : Removed Content Ephemeral) (rest : CacheRoot Content Ephemeral) :
    Option (CacheRoot Content Ephemeral) :=
  match rest.findRemoveMe name with
  | some other =>
    if isEmpty other then
      some { rest with
        removeMe := rest.removeMe.filter (fun entry => entry.1 ≠ name) ++ [(name, entry)] }
    else none
  | none => some { rest with removeMe := rest.removeMe ++ [(name, entry)] }

/-- `rename` of a directory to be removed. -/
def renameRemoveMe (isEmpty : Removed Content Ephemeral → Bool) (old new : RemoveMe)
    (root : CacheRoot Content Ephemeral) : Option (CacheRoot Content Ephemeral) := do
  let entry ← root.findRemoveMe old
  addRemoveMe isEmpty new entry
    { root with removeMe := root.removeMe.filter fun entry => entry.1 ≠ old }

/-- `rename` of the ephemeral directory. -/
def removeEphemeral (isEmpty : Removed Content Ephemeral → Bool) (name : RemoveMe)
    (root : CacheRoot Content Ephemeral) : Option (CacheRoot Content Ephemeral) := do
  let youngest ← root.generations 0
  let directory ← youngest.ephemeral
  addRemoveMe isEmpty name (.ephemeral directory)
    (root.setGeneration 0 (some { youngest with ephemeral := none }))

/-- `rename` of a generation to a directory to be removed. -/
def removeGeneration (isEmpty : Removed Content Ephemeral → Bool) (index : Nat) (name : RemoveMe)
    (root : CacheRoot Content Ephemeral) : Option (CacheRoot Content Ephemeral) := do
  let whole ← root.generations index
  addRemoveMe isEmpty name (.generation whole) (root.setGeneration index none)

/-- `rename` of a generation to another one, which must not be there or be empty. -/
def moveGeneration (isEmpty : Removed Content Ephemeral → Bool) (index target : Nat)
    (root : CacheRoot Content Ephemeral) : Option (CacheRoot Content Ephemeral) := do
  let whole ← root.generations index
  let moved := (root.setGeneration index none).setGeneration target (some whole)
  match root.generations target with
  | some other => if isEmpty (.generation other) then some moved else none
  | none => some moved

end CacheRoot

namespace GarbageCollector

/-- `FileSystemManager::Rename` — a rename that is possible may be granted. -/
def rename (move : CacheRoot Content Ephemeral → Option (CacheRoot Content Ephemeral)) :
    Collection Content Ephemeral Bool := do
  let outcome ← ask
  let root ← read
  match move root with
  | some moved => if outcome.success then do write moved; return true else return false
  | none => return false

/-- `SharedLock` and `ExclusiveLock`. -/
def lock : Collection Content Ephemeral Unit := do
  if (← ask).success then return () else fail

def removeDirs : List RemoveMe → Collection Content Ephemeral Bool
  | [] => return true
  | name :: names => do
    let root ← read
    if (root.findRemoveMe name).isSome then do
      let outcome ← ask
      if outcome.success then do
        write { root with removeMe := root.removeMe.filter fun entry => entry.1 ≠ name }
        removeDirs names
      else do
        let _ ← removeDirs names
        return false
    else removeDirs names

variable (isEmpty : Removed Content Ephemeral → Bool)

/-- The renaming of the directories that are left over; returns the next number and the directories
to remove. -/
def takeLeftOver (owner : Str) : List RemoveMe → Nat → List RemoveMe →
    Collection Content Ephemeral (Nat × List RemoveMe)
  | [], counter, toRemove => return (counter, toRemove)
  | name :: names, counter, toRemove => do
    if ← rename (CacheRoot.renameRemoveMe isEmpty name ⟨owner, counter⟩) then
      takeLeftOver owner names (counter + 1) (toRemove ++ [⟨owner, counter⟩])
    else takeLeftOver owner names (counter + 1) toRemove

/-- The renaming of the ephemeral directory. -/
def takeEphemeral (owner : Str) (counter : Nat) (toRemove : List RemoveMe) :
    Collection Content Ephemeral (Nat × List RemoveMe) := do
  if (((← read).generations 0).bind Generation.ephemeral).isSome then do
    if ← rename (CacheRoot.removeEphemeral isEmpty ⟨owner, counter⟩) then
      return (counter + 1, toRemove ++ [⟨owner, counter⟩])
    else return (counter + 1, toRemove)
  else return (counter, toRemove)

/-- `Compactify` — work on the storages of the youngest generation. -/
def compactify : Collection Content Ephemeral Bool := do
  let outcome ← ask
  let root ← read
  write (root.setGeneration 0 ((root.generations 0).map fun youngest =>
    { youngest with content := outcome.compactified youngest.content }))
  return outcome.success

/-- `not gc_all and not Compactify(..)`. -/
def failsToCompactify (gcAll : Bool) : Collection Content Ephemeral Bool :=
  if gcAll then return false else return !(← compactify)

/-- The loop over all generations below an index, from the oldest, that moves them out. -/
def removeAll (owner : Str) : Nat → Nat → List RemoveMe →
    Collection Content Ephemeral (List RemoveMe)
  | 0, _, toRemove => return toRemove
  | index + 1, counter, toRemove => do
    let name : RemoveMe := ⟨owner, counter⟩
    if ((← read).generations index).isSome then do
      if ← rename (CacheRoot.removeGeneration isEmpty index name) then
        removeAll owner index (counter + 1) (toRemove ++ [name])
      else fail
    else removeAll owner index (counter + 1) (toRemove ++ [name])

/-- The loop over all generations below an index, from the oldest, that makes them older by one. -/
def rotate (numGenerations : Nat) (name : RemoveMe) : Nat → Collection Content Ephemeral Unit
  | 0 => return ()
  | index + 1 => do
    if ((← read).generations index).isSome then do
      let move := if index + 1 = numGenerations then CacheRoot.removeGeneration isEmpty index name
        else CacheRoot.moveGeneration isEmpty index (index + 1)
      if ← rename move then rotate numGenerations name index else fail
    else rotate numGenerations name index

/-- The arguments of a garbage collection. -/
structure Settings where
  /-- `CreateProcessUniqueId`. -/
  processId : Option Str
  noRotation : Bool
  gcAll : Bool

/-- The renaming of the generations; returns the directories to remove. -/
def moveGenerations (numGenerations : Nat) (settings : Settings) (owner : Str) (counter : Nat)
    (toRemove : List RemoveMe) : Collection Content Ephemeral (List RemoveMe) := do
  if settings.gcAll then removeAll isEmpty owner numGenerations counter toRemove
  else if !settings.noRotation then do
    rotate isEmpty numGenerations ⟨owner, counter⟩ numGenerations
    return toRemove ++ [⟨owner, counter⟩]
  else return toRemove

def triggerGarbageCollection (numGenerations : Nat) (settings : Settings) :
    Collection Content Ephemeral Bool := do
  if settings.noRotation && settings.gcAll then fail
  else match settings.processId with
    | none => fail
    | some owner => do
      lock
      let owned := ((← read).removeMe.map fst).filter fun name => name.owner = owner
      if !(← removeDirs owned) then fail
      else do
        lock
        let leftOver := (← read).removeMe.map fst
        let (counter, toRemove) ← takeLeftOver isEmpty owner leftOver 0 []
        let (counter, toRemove) ← takeEphemeral isEmpty owner counter toRemove
        if ← failsToCompactify settings.gcAll then fail
        else do
          let toRemove ← moveGenerations isEmpty numGenerations settings owner counter toRemove
          lock
          removeDirs toRemove

end GarbageCollector

end Jst.Storage
