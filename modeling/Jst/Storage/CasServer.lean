import Jst.Storage.Uplinker
import Jst.Data.Grouping
/-!
# Updates of the storage by a server

`CASUtils` adds data and files to the storage, and splits and splices what is stored, as clients
announce it by digests. The storage is the youngest one of some generations, and a lookup uplinks
what older generations have. Git trees are read from an in-memory object database, which is asked
for the announced id; it may refuse data under an id.
-/
namespace Jst.Storage

/-- A native storage, as its server uses it. -/
structure CasServer (Hash : Type) where
  /-- The hash function and the formats. A tree is read with all its entries. -/
  protocol : Protocol Hash
  /-- `ProtocolTraits::IsNative`. -/
  native : protocol.native = true
  admits : Hash → Str → Bool
  gearTable : UInt8 → UInt64
  count : Nat
  positive : 0 < count
  rank : Hash → Nat
  ranked : ∀ content entries, protocol.readTreeData content = some entries →
    ∀ entry ∈ entries, entry.2 = .tree → rank entry.1 < rank (protocol.hashes.tree content)
  disjoint : ∀ blob tree, protocol.hashes.blob blob ≠ protocol.hashes.tree tree

/-- A digest as a client announces it. -/
structure AnnouncedDigest (Hash : Type) where
  hash : Hash
  isTree : Bool
  size : Nat

inductive Status where
  | ok
  | invalidArgument
  | failedPrecondition
  | notFound
  | internal
deriving DecidableEq

/-- The ids in a tree, each with the type of its first entry. -/
def firstTypes {Hash : Type} [DecidableEq Hash] (entries : List (Hash × ObjectType)) :
    List (Hash × ObjectType) :=
  (Grouping.group entries).filterMap fun (hash, types) => types.head?.map (hash, ·)

namespace CasServer

open Generations

variable {Hash : Type} [DecidableEq Hash] (server : CasServer Hash)

/-- The protocol of an uplink, which looks at the first entry of every id only. -/
def uplinking : Protocol Hash :=
  { server.protocol with
    readTreeData := fun content => (server.protocol.readTreeData content).map firstTypes }

/-- `ObjectCAS::IsAvailable`, for blobs. -/
def hasBlob (hash : Hash) (executable : Bool) (gens : Generations Hash) : Bool × Generations Hash :=
  uplinkBlob server.uplinking 2 server.count hash executable gens

/-- `ObjectCAS::IsAvailable`, for trees. -/
def hasTree (hash : Hash) (gens : Generations Hash) : Bool × Generations Hash :=
  uplinkTree server.uplinking 2 server.count (server.rank hash + 1) hash gens

def blobPathNoSync (hash : Hash) (executable : Bool) (gens : Generations Hash) :
    Option Str × Generations Hash :=
  let (available, gens) := server.hasBlob hash executable gens
  (if available then (gens 0).objects (blobType executable) hash else none, gens)

def treePath (hash : Hash) (gens : Generations Hash) : Option Str × Generations Hash :=
  let (available, gens) := server.hasTree hash gens
  (if available then (gens 0).objects .tree hash else none, gens)

/-- `LocalCAS::StoreBlob` — what is available is not stored again. -/
def storeBlob (content : Str) (executable : Bool) (gens : Generations Hash) :
    Hash × Generations Hash :=
  let hash := server.protocol.hashes.blob content
  let (available, gens) := server.hasBlob hash executable gens
  (hash, if available then gens
    else store server.protocol.hashes 0 (blobType executable) content gens)

def storeTree (content : Str) (gens : Generations Hash) : Hash × Generations Hash :=
  let hash := server.protocol.hashes.tree content
  let (available, gens) := server.hasTree hash gens
  (hash, if available then gens else store server.protocol.hashes 0 .tree content gens)

/-- `LocalCAS::BlobPath`, with the synchronisation of the x-bits. -/
def blobPath (hash : Hash) (executable : Bool) (gens : Generations Hash) :
    Option Str × Generations Hash :=
  match server.blobPathNoSync hash executable gens with
  | (some content, gens) => (some content, gens)
  | (none, gens) =>
    match server.blobPathNoSync hash (!executable) gens with
    | (none, gens) => (none, gens)
    | (some content, gens) =>
      server.blobPathNoSync hash executable (server.storeBlob content executable gens).2

/-- `LargeObjectCAS::GetEntryPath`. -/
def entryPath (isTree : Bool) (hash : Hash) (gens : Generations Hash) :
    Option (List Hash) × Generations Hash :=
  getEntryPath server.uplinking 2 server.count isTree (server.rank hash + 1) hash gens

/-- `entry_exists` — the large storages are inspected first. -/
def entryExists (entry : Hash × ObjectType) (gens : Generations Hash) : Bool × Generations Hash :=
  let isTree : Bool := entry.2 = .tree
  match server.entryPath isTree entry.1 gens with
  | (some _, gens) => (true, gens)
  | (none, gens) =>
    let (path, gens) :=
      if isTree then server.treePath entry.1 gens
      else server.blobPath entry.1 (entry.2 = .executable) gens
    (path.isSome, gens)

/-- `LocalCAS::CheckTreeInvariant` — all entries of a tree are in the storage. -/
def checkTreeInvariant (announced : Hash) (content : Str) (gens : Generations Hash) :
    Status × Generations Hash :=
  let entries :=
    if server.admits announced content then server.protocol.readTreeData content else none
  match entries with
  | none => (.internal, gens)
  | some entries =>
    let (complete, gens) := allOf server.entryExists entries gens
    (if complete then .ok else .failedPrecondition, gens)

/-- `CASContentValidator::CheckDigestConsistency`, for what is stored. -/
def checkDigestConsistency (digest : AnnouncedDigest Hash) (stored : Hash) (content : Str) : Bool :=
  digest.hash = stored && (digest.size = 0 || digest.size = content.length)

def add (digest : AnnouncedDigest Hash) (content : Str) (gens : Generations Hash) :
    Status × Generations Hash :=
  let (status, gens) :=
    if digest.isTree then server.checkTreeInvariant digest.hash content gens else (.ok, gens)
  if status ≠ .ok then (status, gens)
  else
    let (stored, gens) :=
      if digest.isTree then server.storeTree content gens else server.storeBlob content false gens
    (if checkDigestConsistency digest stored content then .ok else .invalidArgument, gens)

/-- The loop of `LargeObjectCAS::Split` over the chunks. -/
def storeParts : List Str → Generations Hash → List Hash × Generations Hash
  | [], gens => ([], gens)
  | chunk :: rest, gens =>
    let (part, gens) := server.storeBlob chunk false gens
    let (parts, gens) := storeParts rest gens
    (part :: parts, gens)

def writeEntry (isTree : Bool) (hash : Hash) (parts : List Hash) (gens : Generations Hash) :
    Generations Hash :=
  match server.entryPath isTree hash gens with
  | (some _, gens) => gens
  | (none, gens) =>
    if parts.length < 2 then gens
    else
      let type : LargeType := if isTree then .tree else .file
      update gens 0 ((gens 0).setEntry type hash parts)

/-- The file that is split: a tree, or a blob with any x-bit. -/
def largeObjectPath (isTree : Bool) (hash : Hash) (gens : Generations Hash) :
    Option Str × Generations Hash :=
  if isTree then server.treePath hash gens
  else
    match server.blobPathNoSync hash false gens with
    | (some content, gens) => (some content, gens)
    | (none, gens) => server.blobPathNoSync hash true gens

/-- `CASUtils::SplitBlobFastCDC`. -/
def splitBlob (digest : AnnouncedDigest Hash) (gens : Generations Hash) :
    Except Status (List Hash) × Generations Hash :=
  match server.entryPath digest.isTree digest.hash gens with
  | (some parts, gens) => (.ok parts, gens)
  | (none, gens) =>
    match server.largeObjectPath digest.isTree digest.hash gens with
    | (none, gens) => (.error .notFound, gens)
    | (some content, gens) =>
      let (parts, gens) := server.storeParts (FileChunker.chunks server.gearTable content) gens
      (.ok parts, server.writeEntry digest.isTree digest.hash parts gens)

/-- `LargeObjectCAS::Splice`. -/
def spliceParts : List Hash → Generations Hash → Option Str × Generations Hash
  | [], gens => (some [], gens)
  | part :: rest, gens =>
    match server.blobPath part false gens with
    | (none, gens) => (none, gens)
    | (some content, gens) =>
      let (others, gens) := spliceParts rest gens
      (others.map (content ++ ·), gens)

def spliceBlob (digest : AnnouncedDigest Hash) (parts : List Hash) (gens : Generations Hash) :
    Status × Generations Hash :=
  let (path, gens) :=
    if digest.isTree then server.treePath digest.hash gens else server.blobPath digest.hash false gens
  if path.isSome then (.ok, gens)
  else
    match server.spliceParts parts gens with
    | (none, gens) => (.notFound, gens)
    | (some content, gens) =>
      let type : LargeType := if digest.isTree then .tree else .file
      if server.protocol.hashes.ofLarge type content ≠ digest.hash then (.failedPrecondition, gens)
      else
        let (status, gens) :=
          if digest.isTree then server.checkTreeInvariant digest.hash content gens else (.ok, gens)
        if status ≠ .ok then (status, gens)
        else
          (.ok, if digest.isTree then (server.storeTree content gens).2
            else (server.storeBlob content false gens).2)

/-- What a client may request. -/
inductive Request (Hash : Type) where
  /-- `AddDataToCAS`. -/
  | addData (digest : AnnouncedDigest Hash) (content : Str)
  /-- `AddFileToCAS`, for a file with some content. -/
  | addFile (digest : AnnouncedDigest Hash) (content : Str)
  /-- `SplitBlobFastCDC`. -/
  | split (digest : AnnouncedDigest Hash)
  /-- `SpliceBlob`. -/
  | splice (digest : AnnouncedDigest Hash) (parts : List Hash)

/-- What the server does on a request, and what it answers. -/
def serve (request : Request Hash) (gens : Generations Hash) : Status × Generations Hash :=
  match request with
  | .addData digest content => server.add digest content gens
  | .addFile digest content => server.add digest content gens
  | .split digest =>
    match server.splitBlob digest gens with
    | (.ok _, gens) => (.ok, gens)
    | (.error status, gens) => (status, gens)
  | .splice digest parts => server.spliceBlob digest parts gens

end CasServer

end Jst.Storage
