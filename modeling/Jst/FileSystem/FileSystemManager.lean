import Jst.Data.SortedMap
import Jst.Tree.Overlay
import Jst.Utils.Path
/-!
# Directory trees and the file system

A directory is the list of its entries. `FileSystemManager` asks the operating system about paths
below the directory of a root. What is found through subdirectories is determined by the entries;
what is found at a path that leads above the directory or through a symbolic link, and which
directory such a link opens, is not.
-/
namespace Jst.FileSystem

open SortedMap Tree

/-- What a directory has an entry for. -/
inductive Node where
  | file (executable : Bool) (content : Str)
  | symlink (target : Str)
  | directory (entries : List (Str × Node))

/-- The entries of a directory, with their names. -/
abbrev Entries := List (Str × Node)

/-- The type of an entry. -/
def Node.type : Node → Tree.ObjectType
  | .file executable _ => if executable then .executable else .file
  | .symlink _ => .symlink
  | .directory _ => .tree

def isFileObject : Tree.ObjectType → Bool
  | .file | .executable => true
  | .tree | .symlink => false

def isBlobObject : Tree.ObjectType → Bool
  | .file | .executable | .symlink => true
  | .tree => false

def isNonSpecialObject : Tree.ObjectType → Bool
  | .file | .executable | .tree => true
  | .symlink => false

/-- What the operating system knows around the directory of a root. -/
structure Disk where
  root : Entries
  /-- What is found at a path that leads above the directory or through a symbolic link. -/
  outside : Str → Option Node
  follow : Str → Option Entries

/-- A path leads through a symbolic link. -/
def throughSymlink : Entries → List Str → Bool
  | _, [] => false
  | entries, name :: rest =>
    match find name entries with
    | some (.symlink _) => rest ≠ []
    | some (.directory entries) => throughSymlink entries rest
    | _ => false

/-- What is found behind the names of a path that leads through directories. -/
def walk : Entries → List Str → Option Node
  | entries, [] => some (.directory entries)
  | entries, name :: rest =>
    match find name entries with
    | none => none
    | some (.directory entries) => walk entries rest
    | some node => if rest = [] then some node else none

/-- The entries that are found in a directory, with their types; a special one may fail. -/
def readEntries (allowUpwards ignoreSpecial : Bool) : Entries → Option (List (Str × Tree.ObjectType))
  | [] => some []
  | (name, node) :: rest =>
    match node with
    | .symlink target =>
      if ignoreSpecial then readEntries allowUpwards ignoreSpecial rest
      else if allowUpwards || Path.pathIsNonUpwards target then
        (readEntries allowUpwards ignoreSpecial rest).map ((name, .symlink) :: ·)
      else none
    | node => (readEntries allowUpwards ignoreSpecial rest).map ((name, node.type) :: ·)

namespace Disk

variable (disk : Disk) (path : Str)

/-- `std::filesystem::symlink_status` — what is found at a path, without following a link there. -/
def symlinkStatus : Option Node :=
  let names := (Path.names path).filter (· ≠ Path.here)
  if Path.up ∈ names ∨ throughSymlink disk.root names then disk.outside path
  else walk disk.root names

/-- `FileSystemManager::Exists`. -/
def pathExists : Bool := (disk.symlinkStatus path).isSome

def isFile : Bool :=
  match disk.symlinkStatus path with
  | some (.file _ _) => true
  | _ => false

def isDirectory : Bool :=
  match disk.symlinkStatus path with
  | some (.directory _) => true
  | _ => false

def isNonUpwardsSymlink : Bool :=
  match disk.symlinkStatus path with
  | some (.symlink target) => Path.pathIsNonUpwards target
  | _ => false

def type (allowUpwards : Bool) : Option Tree.ObjectType :=
  match disk.symlinkStatus path with
  | some (.file executable _) => some (if executable then .executable else .file)
  | some (.directory _) => some .tree
  | some (.symlink _) =>
    if allowUpwards || disk.isNonUpwardsSymlink path then some .symlink else none
  | none => none

def readFile : Option Str :=
  match disk.symlinkStatus path with
  | some (.file _ content) => some content
  | _ => none

def readSymlink : Option Str :=
  match disk.symlinkStatus path with
  | some (.symlink target) => some target
  | _ => none

/-- `std::filesystem::directory_iterator` — opens a directory, also through a symbolic link. -/
def openDirectory : Option Entries :=
  match disk.symlinkStatus path with
  | some (.directory entries) => some entries
  | some (.symlink _) => disk.follow path
  | _ => none

def readDirectory (allowUpwards ignoreSpecial : Bool) : Option (List (Str × Tree.ObjectType)) := do
  readEntries allowUpwards ignoreSpecial (← disk.openDirectory path)

end Disk

end Jst.FileSystem
