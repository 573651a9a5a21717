import Mathlib.Data.List.Basic
import Jst.Data.Bytes
/-!
# Lexical paths

The operations of `std::filesystem::path` (POSIX paths) that only look at the text, and the helpers
of `path.hpp` on top of them. A path is its text. Its names are the nonempty pieces between slashes;
normalising a path removes `.` and resolves `..` against the name before it.
-/
namespace Jst.Path

/-- The directory separator. -/
def slash : UInt8 := 47

/-- A full stop. -/
def dot : UInt8 := 46

/-- The name of the directory itself. -/
def here : Str := [dot]

/-- The name of the parent directory. -/
def up : Str := [dot, dot]

/-- The pieces of a path between its slashes, empty ones included. -/
def pieces (path : Str) : List Str := path.splitOn slash

/-- The names in a path. -/
def names (path : Str) : List Str := (pieces path).filter fun piece => !piece.isEmpty

/-- `path::is_absolute` — the path starts at the root directory. -/
def isAbsolute (path : Str) : Bool := path.head? = some slash

/-- `path::filename` — what follows the last slash. -/
def filename (path : Str) : Str := (pieces path).getLastD []

def hasFilename (path : Str) : Bool := !(filename path).isEmpty

/-- The text of a path with the given names. -/
def join (root : Bool) (names : List Str) : Str :=
  (if root then [slash] else []) ++ [slash].intercalate names

/-- `path::parent_path` — drop the last name and the slashes before it, but not a root. -/
def parentPath (path : Str) : Str :=
  let directory := path.take (path.length - (filename path).length)
  let trimmed := (directory.reverse.dropWhile (· = slash)).reverse
  if trimmed.isEmpty then directory else trimmed

/-- `path::stem` — the file name without its extension. -/
def stem (path : Str) : Str :=
  let name := filename path
  let extension := name.reverse.takeWhile (· ≠ dot)
  let base := name.take (name.length - extension.length - 1)
  if name = up ∨ base.isEmpty then name else base

/-- `path::operator/` — an absolute path replaces the one in front of it. -/
def append (path other : Str) : Str :=
  if isAbsolute other then other
  else if hasFilename path then path ++ slash :: other
  else path ++ other

/-- Add a name behind others: `.` is dropped, and `..` cancels the name before it. -/
def push (root : Bool) (stack : List Str) (name : Str) : List Str :=
  if name = here then stack
  else if name = up then
    match stack with
    | [] => if root then [] else [up]
    | top :: rest => if top = up then up :: stack else rest
  else name :: stack

/-- The names that are left when `.` and `..` are resolved, the last one first. -/
def resolve (root : Bool) (names : List Str) : List Str := names.foldl (push root) []

def lexicallyNormal (path : Str) : Str :=
  if path.isEmpty then []
  else
    let root := isAbsolute path
    let stack := resolve root (names path)
    let directory := filename path = [] ∨ filename path = here ∨ filename path = up
    match stack with
    | [] => if root then [slash] else here
    | top :: _ =>
      join root stack.reverse ++ if directory ∧ top ≠ up then [slash] else []

/-- The elements that iterating a path yields: the root directory, the names, and an empty element
for a slash at the end. -/
def elements (path : Str) : List Str :=
  (if isAbsolute path then [[slash]] else []) ++ names path ++
    (if names path ≠ [] ∧ filename path = [] then [[]] else [])

/-- What remains of two lists behind their longest common front. -/
def mismatch : List Str → List Str → List Str × List Str
  | left :: lefts, right :: rights =>
    if left = right then mismatch lefts rights else (left :: lefts, right :: rights)
  | lefts, rights => (lefts, rights)

/-- The directory levels that a list of elements leads down; negative if it leads up. -/
def levels (elements : List Str) : Int :=
  (elements.countP fun name => name ≠ [] ∧ name ≠ here ∧ name ≠ up) -
    (elements.countP (· = up) : Int)

def lexicallyRelative (path base : Str) : Str :=
  if isAbsolute path ≠ isAbsolute base then []
  else
    match mismatch (elements path) (elements base) with
    | ([], []) => here
    | (rest, behind) =>
      if levels behind < 0 then []
      else if levels behind = 0 ∧ (rest = [] ∨ rest.head? = some []) then here
      else (replicate (levels behind).toNat up ++ rest).foldl append []

/-- `ToNormalPath` — the normal form without a slash at the end. -/
def toNormalPath (path : Str) : Str :=
  let normal := lexicallyNormal path
  let normal := if hasFilename normal then normal else parentPath normal
  if normal.isEmpty then here else normal

/-- `PathIsNonUpwards` — the path is relative and leads to nothing above where it starts. -/
def pathIsNonUpwards (path : Str) : Bool :=
  !isAbsolute path && (elements (lexicallyNormal path)).head? ≠ some up

end Jst.Path
