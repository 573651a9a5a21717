import Jst.Tree.Overlay
import Jst.Utils.Path
/-!
# Trees of named artifacts

`DirectoryTree` keeps artifacts under their paths; `BlobTree` is what is uploaded for it, a git tree
object for every directory with those of its subdirectories below it. The nodes of a directory are a
hash map in the source; here they stand in a list, and nothing depends on its order.
-/
namespace Jst.Execution

open Tree

/-- `DirectoryTree` — the nodes of a directory, one after the other. -/
inductive DirectoryTree (Artifact : Type) where
  | nil
  | directory (name : Str) (sub rest : DirectoryTree Artifact)
  | artifact (name : Str) (artifact : Artifact) (rest : DirectoryTree Artifact)
deriving DecidableEq

namespace DirectoryTree

variable {Artifact : Type}

/-- `nodes_.emplace(segment, artifact)` — fails if there is a node with the name. -/
def emplace (segment : Str) (value : Artifact) :
    DirectoryTree Artifact → Option (DirectoryTree Artifact)
  | nil => some (artifact segment value nil)
  | directory name sub rest =>
    if name = segment then none else (emplace segment value rest).map (directory name sub)
  | artifact name other rest =>
    if name = segment then none else (emplace segment value rest).map (artifact name other)

/-- Add to the directory with a name, which is created if there is no node with the name; fails if
there is an artifact. -/
def descend (segment : Str) (add : DirectoryTree Artifact → Option (DirectoryTree Artifact)) :
    DirectoryTree Artifact → Option (DirectoryTree Artifact)
  | nil => (add nil).map fun sub => directory segment sub nil
  | directory name sub rest =>
    if name = segment then (add sub).map fun sub => directory name sub rest
    else (descend segment add rest).map (directory name sub)
  | artifact name other rest =>
    if name = segment then none else (descend segment add rest).map (artifact name other)

/-- `DirectoryTree::AddArtifact`, on the segments of a path. -/
def addSegments (value : Artifact) :
    List Str → DirectoryTree Artifact → Option (DirectoryTree Artifact)
  | [], _ => none
  | segment :: rest, tree =>
    if segment = Path.here ∨ segment = Path.up then none
    else if rest = [] then emplace segment value tree
    else descend segment (addSegments value rest) tree

def addArtifact (path : Str) (value : Artifact) (tree : DirectoryTree Artifact) :
    Option (DirectoryTree Artifact) :=
  let normPath := Path.lexicallyNormal path
  if normPath = [] ∨ Path.isAbsolute normPath = true then none
  else addSegments value (Path.elements normPath) tree

def fromNamedArtifacts (artifacts : List (Str × Artifact)) : Option (DirectoryTree Artifact) :=
  artifacts.foldlM (fun tree (path, value) => addArtifact path value tree) nil

end DirectoryTree

/-- `ObjectTypeToPerm`, its length. -/
def permLength : Tree.ObjectType → Nat
  | .tree => 5
  | _ => 6

/-- `ArtifactBlob`, for a git tree object. -/
structure ArtifactBlob (Hash : Type) where
  content : GitTree Hash
  /-- `GetDigest`. -/
  digest : ArtifactDigest Hash

/-- `GetContentSize` — an entry has a mode, a space, its name, a null byte and a raw hash. -/
def ArtifactBlob.contentSize {Hash : Type} (blob : ArtifactBlob Hash) : Nat :=
  (blob.content.map fun entry => permLength entry.type + 1 + entry.name.length + 1 + 20).sum

/-- The nodes of a `BlobTree`, one after the other. -/
inductive BlobNodes (Hash : Type) where
  | nil
  | node (blob : ArtifactBlob Hash) (below rest : BlobNodes Hash)

structure BlobTree (Hash : Type) where
  blob : ArtifactBlob Hash
  nodes : BlobNodes Hash

namespace BlobTree

variable {Artifact Hash : Type} [DecidableEq Hash] (treeId : GitTree Hash → Hash)
  (info : Artifact → Option (Tree.ObjectType × Hash))

/-- `CreateShallowTree` and `ArtifactBlob::FromMemory` — the blob for some entries. -/
def treeBlob (entries : List (Hash × Str × Tree.ObjectType)) : ArtifactBlob Hash where
  content := createTree (Grouping.group entries)
  digest := { hash := treeId (createTree (Grouping.group entries)), isTree := true }

/-- The loop of `BlobTree::FromDirectoryTree`: the entries of the tree object by their hashes, and
the blob trees of the directories. -/
def collect : DirectoryTree Artifact →
    Option (List (Hash × Str × Tree.ObjectType) × BlobNodes Hash)
  | .nil => some ([], .nil)
  | .directory name sub rest => do
    let (below, subNodes) ← collect sub
    let (entries, nodes) ← collect rest
    let blob := treeBlob treeId below
    return ((blob.digest.hash, name, .tree) :: entries, .node blob subNodes nodes)
  | .artifact name value rest => do
    let (type, hash) ← info value
    let (entries, nodes) ← collect rest
    return ((hash, name, type) :: entries, nodes)

def fromDirectoryTree (tree : DirectoryTree Artifact) : Option (BlobTree Hash) :=
  (collect treeId info tree).map fun (entries, nodes) => ⟨treeBlob treeId entries, nodes⟩

end BlobTree

end Jst.Execution
