import Jst.Tree.Overlay
import Jst.Utils.Path
/-!
# Reading the direct entries of a tree

`TreeReader<BazelNetworkReader>::ReadDirectTreeEntries` on a remote store. A store is the list of
the digests it has a blob for; what a blob contains is determined by its digest. In the native
protocol a tree is a git tree object, in the compatible one a `Directory` message. The parsers of
both formats and the hash function are parameters.
-/
namespace Jst.Execution

open Tree

/-- The digests that a store has a blob for. -/
abbrev Store (Hash : Type) := List (ArtifactDigest Hash)

/-- An entry of a git tree object. -/
structure RawEntry (Hash : Type) where
  /-- `git_tree_entry_name`. -/
  name : Str
  /-- `GitFileModeToObjectType` of the file mode, if it is supported. -/
  type : Option Tree.ObjectType
  /-- `git_tree_entry_id`. -/
  hash : Hash

/-- A `bazel_re::Directory`. A digest is there if `ArtifactDigestFactory::FromBazel` accepts it. -/
structure Directory (Hash : Type) where
  /-- The files, with their name, digest and whether they are executable. -/
  files : List (Str × Option Hash × Bool)
  symlinks : List (Str × Str)
  directories : List (Str × Option Hash)

/-- The protocol, and the formats of what is stored. -/
structure Formats (Hash : Type) where
  /-- `IsNativeProtocol`. -/
  native : Bool
  content : ArtifactDigest Hash → Str
  gitTree : Str → Option (List (RawEntry Hash))
  /-- `BazelMsgFactory::MessageFromString<bazel_re::Directory>`. -/
  directory : Str → Option (Directory Hash)
  hashFile : Str → Hash

variable {Hash : Type} [DecidableEq Hash]

/-- The digest of a blob that is no git tree. -/
def blobDigest (hash : Hash) : ArtifactDigest Hash where
  hash := hash
  isTree := false

/-- `CreateObjectInfo` — the info of an entry of a `Directory`. -/
def directoryInfo (type : Tree.ObjectType) (hash : Hash) : ObjectInfo Hash where
  digest := blobDigest hash
  type := type
  failed := false

/-- `flat_tree_walker` — the entries of a git tree object, which all have to be supported. -/
def flatTreeWalker (entries : List (RawEntry Hash)) : Option (GitTree Hash) :=
  entries.mapM fun entry => entry.type.map fun type =>
    { name := entry.name, type := type, hash := entry.hash }

/-- The digests of the blobs that are a symbolic link under one of their names. -/
def symlinkDigests (entries : GroupedEntries Hash) : List (ArtifactDigest Hash) :=
  (entries.filter fun group => group.2.any fun entry => entry.2 = .symlink).map fun group =>
    blobDigest group.1

namespace Formats

variable (formats : Formats Hash)

/-- `check_symlinks` — all the links can be read, and none leads upwards. -/
def checkSymlinks (source : Store Hash) (links : List (ArtifactDigest Hash)) : Bool :=
  links.all fun link => link ∈ source && Path.pathIsNonUpwards (formats.content link)

def readGitTree (source : Store Hash) (digest : ArtifactDigest Hash) :
    Option (GroupedEntries Hash) := do
  guard (digest ∈ source)
  let entries ← formats.gitTree (formats.content digest)
  let entries := readDirectTree (← flatTreeWalker entries)
  guard (formats.checkSymlinks source (symlinkDigests entries))
  return entries

/-- `BazelNetworkReader::ReadDirectory`, apart from what it uploads. -/
def readDirectory (source : Store Hash) (digest : ArtifactDigest Hash) : Option (Directory Hash) := do
  guard (digest ∈ source)
  formats.directory (formats.content digest)

/-- The links that `BazelNetworkReader::ReadDirectory` uploads to the store that it reads from. -/
def symlinkBlobs (source : Store Hash) (digest : ArtifactDigest Hash) :
    List (ArtifactDigest Hash) :=
  if formats.native then []
  else
    match formats.readDirectory source digest with
    | none => []
    | some directory => directory.symlinks.map fun link => blobDigest (formats.hashFile link.2)

/-- `TreeReaderUtils::ReadObjectInfos` of a `Directory`. -/
def directoryInfos (directory : Directory Hash) : Option (List (Str × ObjectInfo Hash)) := do
  let files ← directory.files.mapM fun (name, hash, isExecutable) => hash.map fun hash =>
    (name, directoryInfo (if isExecutable then .executable else .file) hash)
  let directories ← directory.directories.mapM fun (name, hash) => hash.map fun hash =>
    (name, directoryInfo .tree hash)
  let symlinks := directory.symlinks.map fun (name, target) =>
    (name, directoryInfo .symlink (formats.hashFile target))
  return files ++ symlinks ++ directories

end Formats

/-- `TreeReaderUtils::ReadObjectInfos` of the entries of a git tree. -/
def gitInfos (entries : GroupedEntries Hash) : List (Str × ObjectInfo Hash) :=
  entries.flatMap fun (hash, items) => items.map fun (name, type) => (name, entryInfo (type, hash))

/-- `TreeReader::ReadDirectTreeEntries`. A tree that cannot be read has no entries. -/
def Formats.readDirectTreeEntries (formats : Formats Hash) (source : Store Hash)
    (digest : ArtifactDigest Hash) : Option (List (Str × ObjectInfo Hash)) :=
  if formats.native then
    match formats.readGitTree source digest with
    | none => some []
    | some entries => some (gitInfos entries)
  else
    match formats.readDirectory source digest with
    | none => some []
    | some directory => formats.directoryInfos directory

end Jst.Execution
