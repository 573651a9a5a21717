import Jst.FileSystem.FileSystemManager
/-!
# Trees in a git repository

`GitTree` and `GitTreeEntry` on a repository with the content of a directory; the tree object of a
directory is identified with its entries. The tree of an entry is read once and kept, so whether its
special entries are ignored is decided by the first request. A tree that has been validated is
marked.
-/
namespace Jst.FileSystem

open SortedMap Tree

/-- A tree that has been read. -/
structure GitTree where
  entries : Entries
  ignoreSpecial : Bool

/-- An entry of a tree: the names that lead to it from the root, and what it is. -/
structure GitTreeEntry where
  path : List Str
  node : Node

/-- `GitRepo::ReadDirectTree` — the walk over the tree object of a directory. -/
def readDirectTree (entries : Entries) (ignoreSpecial : Bool) : Entries :=
  if ignoreSpecial then entries.filter fun entry => isNonSpecialObject entry.2.type else entries

/-- `SymlinksChecker` — no symbolic link leads upwards. -/
def symlinksChecker (entries : Entries) : Bool :=
  entries.all fun entry =>
    match entry.2 with
    | .symlink target => Path.pathIsNonUpwards target
    | _ => true

/-- `GitRepo::ReadTree` — the walk, and a check of the symbolic links unless they are ignored. -/
def readTree (entries : Entries) (ignoreSpecial : Bool) : Option Entries :=
  if ignoreSpecial || symlinksChecker entries then some (readDirectTree entries ignoreSpecial)
  else none

/-- A git tree, with what has been kept from the requests so far. -/
structure RootGit where
  content : Entries
  /-- `FileRoot::ignore_special_`, with which the root tree has been read. -/
  ignoreSpecial : Bool
  /-- `GitTreeEntry::tree_cached_` — how the tree of an entry was read first, if it has been read.
  -/
  cached : List Str → Option Bool
  /-- `IsTreeValid` — the trees that are marked as valid. -/
  marked : Entries → Bool

namespace RootGit

variable (root : RootGit)

/-- `RootGit::tree` — read without checks. -/
def tree : GitTree where
  entries := readDirectTree root.content root.ignoreSpecial
  ignoreSpecial := root.ignoreSpecial

def rootEntry : GitTreeEntry where
  path := []
  node := .directory root.content

/-- `GitTreeEntry::Tree`. -/
def entryTree (entry : GitTreeEntry) (ignoreSpecial : Bool) : Option GitTree :=
  match entry.node with
  | .directory content =>
    let flag := (root.cached entry.path).getD ignoreSpecial
    (readTree content flag).map fun entries => { entries := entries, ignoreSpecial := flag }
  | _ => none

/-- `LookupEntryPyPath` — the flag is passed on to the tree of the first name only. -/
def lookupEntryPyPath (tree : GitTree) (above : List Str) :
    List Str → (ignoreSpecial : Bool) → Option GitTreeEntry
  | [], _ => none
  | name :: rest, ignoreSpecial =>
    match find name tree.entries with
    | none => none
    | some node =>
      let entry : GitTreeEntry := { path := above ++ [name], node := node }
      if rest = [] then some entry
      else
        match root.entryTree entry ignoreSpecial with
        | none => none
        | some subtree => lookupEntryPyPath subtree (above ++ [name]) rest false

def resolveRelativePath (path : Str) : Str :=
  Path.parentPath (Path.append (Path.lexicallyNormal path) [])

/-- `GitTree::LookupEntryByPath` of the root tree. -/
def lookupEntryByPath (path : Str) : Option GitTreeEntry :=
  root.lookupEntryPyPath root.tree [] (Path.elements (resolveRelativePath path)) root.ignoreSpecial

/-- `GitTreeEntry::Blob` — the content of a file, or of a symbolic link that does not lead upwards.
-/
def blob (entry : GitTreeEntry) : Option Str :=
  match entry.node with
  | .file _ content => some content
  | .symlink target => if Path.pathIsNonUpwards target then some target else none
  | .directory _ => none

mutual

/-- A tree that is not marked is read and its subtrees are validated. -/
def validateNode (path : List Str) : Node → Bool
  | .directory entries =>
    root.marked entries ||
      (((root.cached path).getD false || symlinksChecker entries) && validateSubtrees path entries)
  | _ => true

/-- `ValidateGitSubtrees`. -/
def validateSubtrees (path : List Str) : Entries → Bool
  | [] => true
  | (name, node) :: rest => validateNode (path ++ [name]) node && validateSubtrees path rest

end

def isGitTreeValid (entry : GitTreeEntry) : Bool :=
  match entry.node with
  | .directory _ => root.validateNode entry.path entry.node
  | _ => false

end RootGit

end Jst.FileSystem
