import Jst.FileSystem.GitTree
/-!
# File roots

The queries of `FileRoot`, for a root that is a directory on disk or a git tree, with or without
special entries. An absent root answers none of them.
-/
namespace Jst.FileSystem

open Tree

/-- The root itself. -/
inductive Root where
  /-- `fs_root_t`. -/
  | fs (disk : Disk)
  /-- `RootGit`. -/
  | git (root : RootGit)
  /-- `absent_root_t`. -/
  | absent

structure FileRoot where
  root : Root
  ignoreSpecial : Bool

namespace FileRoot

variable (root : FileRoot) (path : Str)

/-- `FileRoot::Exists`. -/
def pathExists : Bool :=
  match root.root with
  | .git git =>
    if path = Path.here then true
    else
      match git.lookupEntryByPath path with
      | some entry =>
        isNonSpecialObject entry.node.type ||
          (!root.ignoreSpecial && entry.node.type = .symlink && (RootGit.blob entry).isSome)
      | none => false
  | .fs disk =>
    let found := disk.pathExists path
    let type := disk.type path true
    if root.ignoreSpecial then found && type.any isNonSpecialObject else found
  | .absent => false

def isFile : Bool :=
  match root.root with
  | .git git =>
    match git.lookupEntryByPath path with
    | some entry => isFileObject entry.node.type
    | none => false
  | .fs disk => disk.isFile path
  | .absent => false

def isSymlink : Bool :=
  if root.ignoreSpecial then false
  else
    match root.root with
    | .git git =>
      match git.lookupEntryByPath path with
      | some entry => entry.node.type = .symlink && (RootGit.blob entry).isSome
      | none => false
    | .fs disk => disk.isNonUpwardsSymlink path
    | .absent => false

def isBlob : Bool := root.isFile path || root.isSymlink path

def isDirectory : Bool :=
  match root.root with
  | .git git =>
    if path = Path.here then true
    else
      match git.lookupEntryByPath path with
      | some entry => entry.node.type = .tree
      | none => false
  | .fs disk => disk.isDirectory path
  | .absent => false

def readContent : Option Str :=
  match root.root with
  | .git git =>
    match git.lookupEntryByPath path with
    | some entry => if isBlobObject entry.node.type then RootGit.blob entry else none
    | none => none
  | .fs disk =>
    match disk.type path false with
    | some type => if type = .symlink then disk.readSymlink path else disk.readFile path
    | none => none
  | .absent => none

/-- `FileRoot::ReadDirectory` — the names and types of the entries. -/
def readDirectory : Option (List (Str × Tree.ObjectType)) :=
  match root.root with
  | .git git =>
    if path = Path.here then
      if root.ignoreSpecial || git.isGitTreeValid git.rootEntry then
        some (git.tree.entries.map fun entry => (entry.1, entry.2.type))
      else none
    else
      match git.lookupEntryByPath path with
      | some entry =>
        if root.ignoreSpecial || git.isGitTreeValid entry then
          (git.entryTree entry root.ignoreSpecial).map fun tree =>
            tree.entries.map fun entry => (entry.1, entry.2.type)
        else none
      | none => some []
  | .fs disk => disk.readDirectory path false root.ignoreSpecial
  | .absent => some []

def blobType : Option Tree.ObjectType :=
  match root.root with
  | .git git =>
    match git.lookupEntryByPath path with
    | some entry => if isBlobObject entry.node.type then some entry.node.type else none
    | none => none
  | .fs disk => (disk.type path true).filter isBlobObject
  | .absent => none

end FileRoot

end Jst.FileSystem
