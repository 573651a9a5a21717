import Jst.Storage.GarbageCollector
import Jst.Tree.Overlay
import Jst.Utils.Path
/-!
# Validated trees

`GitTreeUtils` on a content-addressed repository: whether a tree and all its subtrees can be read
and have no symbolic links that lead upwards. A tree that is found to be so is marked by a file in
the youngest generation of the cache, and a marked tree is not validated again. The creation of a
file may fail, and the process may be stopped at any time.
-/
namespace Jst.FileSystem.GitTreeUtils

open Interruptible Interruptible.Program Storage Tree

/-- `git_filemode_t`. -/
inductive FileMode where
  | blob
  | blobExecutable
  | link
  | tree
  | other
deriving DecidableEq

/-- `git_tree_entry`. -/
structure TreeObjectEntry (Hash : Type) where
  name : Str
  mode : FileMode
  id : Hash
deriving DecidableEq

/-- An object of a repository. -/
inductive GitObject (Hash : Type) where
  | blob (data : Str)
  | tree (entries : List (TreeObjectEntry Hash))
  | other

/-- `GitCAS` — a repository. As an id is a hash of the object, no tree contains itself, and what an
id stands for does not change. -/
structure GitCas (Hash : Type) where
  object : Hash → Option (GitObject Hash)
  rank : Hash → Nat
  ranked : ∀ id entries, object id = some (.tree entries) → ∀ entry ∈ entries,
    rank entry.id < rank id
  names : ∀ id entries, object id = some (.tree entries) → (entries.map TreeObjectEntry.name).Nodup

/-- `GitRepo::tree_entries_t` — an entry with its id. -/
structure TreeEntry (Hash : Type) where
  name : Str
  id : Hash
  type : Tree.ObjectType

structure GitTreeEntry (Hash : Type) where
  rawId : Hash
  type : Tree.ObjectType
  /-- `tree_cached_` — if the tree has been read before, whether special entries were ignored then.
  -/
  cached : Option Bool

structure GitTree (Hash : Type) where
  entries : List (Str × GitTreeEntry Hash)
  rawId : Hash
  ignoreSpecial : Bool

def gitFileModeIsNonSpecial : FileMode → Bool
  | .blob | .blobExecutable | .tree => true
  | _ => false

def gitFileModeToObjectType : FileMode → Option Tree.ObjectType
  | .blob => some .file
  | .blobExecutable => some .executable
  | .tree => some .tree
  | .link => some .symlink
  | .other => none

variable {Hash Ephemeral : Type}

/-- `flat_tree_walker` and `flat_tree_walker_ignore_special`. -/
def flatTreeWalker (ignoreSpecial : Bool) :
    List (TreeObjectEntry Hash) → Option (List (TreeEntry Hash))
  | [] => some []
  | entry :: rest =>
    if ignoreSpecial && !gitFileModeIsNonSpecial entry.mode then flatTreeWalker ignoreSpecial rest
    else
      match gitFileModeToObjectType entry.mode with
      | some type =>
        (flatTreeWalker ignoreSpecial rest).map fun entries =>
          ⟨entry.name, entry.id, type⟩ :: entries
      | none => none

/-- `GitTree::FromEntries` — `emplace` keeps the first entry with a name. -/
def fromEntries (rawId : Hash) (ignoreSpecial : Bool) (entries : List (TreeEntry Hash)) :
    GitTree Hash where
  entries := entries.foldl (fun found entry =>
    if found.any fun other => other.1 = entry.name then found
    else found ++ [(entry.name, ⟨entry.id, entry.type, none⟩)]) []
  rawId := rawId
  ignoreSpecial := ignoreSpecial

namespace GitCas

variable (cas : GitCas Hash)

/-- `GitCAS::ReadObject` as a valid symbolic link — whether something is returned. -/
def readObject (id : Hash) : Bool :=
  match cas.object id with
  | some (.blob data) => Path.pathIsNonUpwards data
  | some (.tree _) => true
  | _ => false

def symlinksChecker (ids : List Hash) : Bool := ids.all cas.readObject

def readDirectTree (id : Hash) (ignoreSpecial : Bool) : Option (List (TreeEntry Hash)) :=
  match cas.object id with
  | some (.tree entries) => flatTreeWalker ignoreSpecial entries
  | _ => none

def readTree (id : Hash) (ignoreSpecial : Bool) : Option (List (TreeEntry Hash)) :=
  match cas.readDirectTree id ignoreSpecial with
  | none => none
  | some entries =>
    let symlinks := (entries.filter fun entry => entry.type = .symlink).map TreeEntry.id
    if !ignoreSpecial && !cas.symlinksChecker symlinks then none else some entries

def read (id : Hash) (ignoreSpecial skipChecks : Bool) : Option (GitTree Hash) :=
  let entries :=
    if skipChecks then cas.readDirectTree id ignoreSpecial else cas.readTree id ignoreSpecial
  entries.map (fromEntries id ignoreSpecial)

/-- `GitTreeEntry::Tree` — what was read first is kept. -/
def entryTree (entry : GitTreeEntry Hash) (ignoreSpecial : Bool) : Option (GitTree Hash) :=
  let flag := entry.cached.getD ignoreSpecial
  if entry.type = .tree then (cas.readTree entry.rawId flag).map (fromEntries entry.rawId flag)
  else none

end GitCas

/-! ## Markers -/

/-- `GetValidTreesMarkerFile` exists. Of a generation, only the names of the markers are looked at.
-/
def marked [DecidableEq Hash] (root : CacheRoot (List Hash) Ephemeral) (generation : Nat)
    (id : Hash) : Bool :=
  match root.generations generation with
  | some directory => id ∈ directory.content
  | none => false

/-- `CreateDirectory` of the directory with the markers. -/
def createDirectory (root : CacheRoot (List Hash) Ephemeral) : CacheRoot (List Hash) Ephemeral :=
  root.setGeneration 0 (some ((root.generations 0).getD ⟨[], none⟩))

/-- `CreateFile` of a marker. -/
def createFile (id : Hash) (root : CacheRoot (List Hash) Ephemeral) :
    CacheRoot (List Hash) Ephemeral :=
  root.setGeneration 0
    ((root.generations 0).map fun youngest => { youngest with content := id :: youngest.content })

def markTreeValid (id : Hash) : Collection (List Hash) Ephemeral Bool := do
  if (← ask).success then do
    write (createDirectory (← read))
    if (← ask).success then do
      write (createFile id (← read))
      return true
    else return false
  else return false

variable [DecidableEq Hash]

/-- The loop of `IsTreeValid` over generations. -/
def isTreeValidIn (id : Hash) : List Nat → Collection (List Hash) Ephemeral Bool
  | [] => return false
  | generation :: rest => do
    if marked (← read) generation id then
      if generation = 0 then return true else markTreeValid id
    else isTreeValidIn id rest

def isTreeValid (numGenerations : Nat) (id : Hash) : Collection (List Hash) Ephemeral Bool :=
  isTreeValidIn id (List.range numGenerations)

namespace GitCas

/-- The loop of `ValidateGitSubtrees`, with what validates and marks an entry that is not marked. -/
def validateEntries (numGenerations : Nat)
    (validate : GitTreeEntry Hash → Collection (List Hash) Ephemeral Bool) :
    List (Str × GitTreeEntry Hash) → Collection (List Hash) Ephemeral Bool
  | [] => return true
  | (_, entry) :: rest => do
    if entry.type = .tree then do
      if ← isTreeValid numGenerations entry.rawId then validateEntries numGenerations validate rest
      else if ← validate entry then validateEntries numGenerations validate rest
      else return false
    else validateEntries numGenerations validate rest

variable (cas : GitCas Hash) (numGenerations : Nat)
  (order : List (Str × GitTreeEntry Hash) → List (Str × GitTreeEntry Hash))

/-- The body of the loop of `ValidateGitSubtrees`. The entries of a tree are listed in the order of
an `unordered_map`. -/
def validateSubtree : (fuel : Nat) → GitTreeEntry Hash → Collection (List Hash) Ephemeral Bool
  | 0, _ => return false
  | fuel + 1, entry => do
    match cas.entryTree entry false with
    | none => return false
    | some subtree =>
      if ← validateEntries numGenerations (validateSubtree fuel) (order subtree.entries) then
        markTreeValid entry.rawId
      else return false

/-- `ValidateGitSubtrees` — a tree is nested less deep than its rank. -/
def validateGitSubtrees (tree : GitTree Hash) : Collection (List Hash) Ephemeral Bool :=
  validateEntries numGenerations (cas.validateSubtree numGenerations order (cas.rank tree.rawId))
    (order tree.entries)

def readValidGitCasTree (id : Hash) : Collection (List Hash) Ephemeral (Option (GitTree Hash)) := do
  if ← isTreeValid numGenerations id then return cas.read id false true
  else
    match cas.read id false false with
    | none => return none
    | some tree =>
      if ← cas.validateGitSubtrees numGenerations order tree then do
        if ← markTreeValid id then return some tree else return none
      else return none

def isGitTreeValid (entry : Option (GitTreeEntry Hash)) : Collection (List Hash) Ephemeral Bool := do
  match entry with
  | none => return false
  | some entry =>
    if ← isTreeValid numGenerations entry.rawId then return true
    else
      match cas.entryTree entry false with
      | none => return false
      | some tree =>
        if ← cas.validateGitSubtrees numGenerations order tree then markTreeValid entry.rawId
        else return false

end GitCas

end Jst.FileSystem.GitTreeUtils
