import Jst.Data.Bytes
import Jst.Data.Grouping
import Jst.Data.SortedMap
/-!
# Overlaying git trees

`tree_operations_utils.cpp` merges two trees of a content-addressed store: it reads the entries of
both, lets those of the other tree win, merges subtrees recursively, and writes the result. A tree
object is the list of its entries in the order of the file; the store and the parser of the object
format are `Cas`. Strings are byte strings, hashes are abstract.
-/
namespace Jst.Tree

open SortedMap

inductive ObjectType where
  | file
  | executable
  | tree
  | symlink
deriving DecidableEq

/-- `ArtifactDigest`, as far as it is compared. -/
structure ArtifactDigest (Hash : Type) where
  hash : Hash
  isTree : Bool
deriving DecidableEq

instance instLawfulBEqArtifactDigest {Hash : Type} [DecidableEq Hash] :
    LawfulBEq (ArtifactDigest Hash) := inferInstance

structure ObjectInfo (Hash : Type) where
  digest : ArtifactDigest Hash
  type : ObjectType
  failed : Bool
deriving DecidableEq

/-- One entry of a git tree object. -/
structure GitEntry (Hash : Type) where
  name : Str
  type : ObjectType
  hash : Hash
deriving DecidableEq

/-- A git tree object: its entries in file order. -/
abbrev GitTree (Hash : Type) := List (GitEntry Hash)

/-- `GitRepo::tree_entries_t`: names and types by hash. -/
abbrev GroupedEntries (Hash : Type) := List (Hash × List (Str × ObjectType))

abbrev TreeEntries (Hash : Type) := List (Str × ObjectInfo Hash)

/-- A content-addressed store of git trees without hash collisions: a tree can be retrieved and
parsed under its id, once uploaded, and nothing else is found under that id. -/
structure Cas (Hash : Type) where
  treeId : GitTree Hash → Hash
  retrieve : Hash → Option (GitTree Hash)
  addressed : ∀ hash data, retrieve hash = some data ↔ treeId data = hash

variable {Hash : Type} [DecidableEq Hash]

/-- `GitRepo::ReadDirectTree` — the walk over a tree object groups its entries by hash. -/
def readDirectTree (data : GitTree Hash) : GroupedEntries Hash :=
  Grouping.group (data.map fun entry => (entry.hash, entry.name, entry.type))

/-- The object info that `ParseGitTree` creates for a type and a hash. -/
def entryInfo (entry : ObjectType × Hash) : ObjectInfo Hash where
  digest := { hash := entry.2, isTree := entry.1 = .tree }
  type := entry.1
  failed := false

/-- `TreeOperationsUtils::ParseGitTree` — the info of the first entry of a hash is stored under all
names of that hash. -/
def parseGitTree (data : GitTree Hash) : TreeEntries Hash :=
  (readDirectTree data).foldl
    (fun treeEntries (hash, entries) =>
      match entries with
      | [] => treeEntries
      | first :: _ =>
        emplaceAll (entries.map fun entry => (entry.1, entryInfo (first.2, hash))) treeEntries)
    []

/-- The name that the entries of a tree object are sorted by: that of a tree as if it ended in a
slash. -/
def sortName (name : Str) (type : ObjectType) : Str :=
  if type = .tree then name ++ lit "/" else name

/-- `GitRepo::CreateTree` — the sorted entries, without the slashes. -/
def createTree (entries : GroupedEntries Hash) : GitTree Hash :=
  let sorted : List (Str × Hash × ObjectType) := entries.foldl
    (fun sorted (hash, items) =>
      emplaceAll (items.map fun item => (sortName item.1 item.2, hash, item.2)) sorted) []
  sorted.map fun (name, hash, type) =>
    { name := if type = .tree then name.dropLast else name, type := type, hash := hash }

def serializeGitTree (treeEntries : TreeEntries Hash) : GitTree Hash :=
  createTree (Grouping.group
    (treeEntries.map fun (name, info) => (info.digest.hash, name, info.type)))

/-- Why an overlay fails, with the data that the error message shows. -/
inductive Failure (Hash : Type) where
  | notTrees
  | unreadable (tree : ObjectInfo Hash)
  | conflict (name : Str) (base other : ObjectInfo Hash)
  | merging (base other : ObjectInfo Hash) (cause : Failure Hash)
  /-- The trees are nested deeper than the evaluation was allowed to go. -/
  | unfinished
deriving DecidableEq

def readTree (cas : Cas Hash) (info : ObjectInfo Hash) : Except (Failure Hash) (TreeEntries Hash) :=
  match cas.retrieve info.digest.hash with
  | some data => .ok (parseGitTree data)
  | none => .error (.unreadable info)

def writeTree (cas : Cas Hash) (treeEntries : TreeEntries Hash) : ObjectInfo Hash where
  digest := { hash := cas.treeId (serializeGitTree treeEntries), isTree := true }
  type := .tree
  failed := false

/-- The loop over the entries of the base tree: the overlay so far, and the names and trees that
are left to the subcaller. -/
def overlayLoop (disjoint : Bool) :
    TreeEntries Hash → TreeEntries Hash → List (Str × ObjectInfo Hash × ObjectInfo Hash) →
    Except (Failure Hash) (TreeEntries Hash × List (Str × ObjectInfo Hash × ObjectInfo Hash))
  | [], overlay, keys => .ok (overlay, keys)
  | (name, base) :: rest, overlay, keys =>
    match find name overlay with
    | none => overlayLoop disjoint rest (insert name base overlay) keys
    | some other =>
      if other = base then overlayLoop disjoint rest overlay keys
      else if base.type = .tree ∧ other.type = .tree then
        overlayLoop disjoint rest overlay (keys ++ [(name, base, other)])
      else if disjoint then .error (.conflict name base other)
      else overlayLoop disjoint rest overlay keys

/-- Insert the overlays that the subcaller computes. -/
def insertOverlays (subcaller : ObjectInfo Hash → ObjectInfo Hash →
      Except (Failure Hash) (ObjectInfo Hash)) :
    List (Str × ObjectInfo Hash × ObjectInfo Hash) → TreeEntries Hash →
    Except (Failure Hash) (TreeEntries Hash)
  | [], overlay => .ok overlay
  | (name, base, other) :: keys, overlay =>
    match subcaller base other with
    | .error failure => .error failure
    | .ok info => insertOverlays subcaller keys (insert name info overlay)

/-- The part of the overlay computation after the early return. -/
def mergeTrees (cas : Cas Hash) (disjoint : Bool)
    (subcaller : ObjectInfo Hash → ObjectInfo Hash → Except (Failure Hash) (ObjectInfo Hash))
    (base other : ObjectInfo Hash) : Except (Failure Hash) (ObjectInfo Hash) := do
  let baseTree ← readTree cas base
  let otherTree ← readTree cas other
  let (overlay, keys) ← overlayLoop disjoint baseTree otherTree []
  let overlay ← insertOverlays subcaller keys overlay
  .ok (writeTree cas overlay)

/-- `TreeOperationsUtils::ComputeTreeOverlay`, for trees nested at most `depth` deep. -/
def computeTreeOverlay (cas : Cas Hash) (disjoint : Bool) :
    Nat → ObjectInfo Hash → ObjectInfo Hash → Except (Failure Hash) (ObjectInfo Hash)
  | 0, _, _ => .error .unfinished
  | depth + 1, base, other =>
    if base.type ≠ .tree ∨ other.type ≠ .tree then .error (.merging base other .notTrees)
    else if base = other then .ok base
    else (mergeTrees cas disjoint (computeTreeOverlay cas disjoint depth) base other).mapError
      (.merging base other)

end Jst.Tree
