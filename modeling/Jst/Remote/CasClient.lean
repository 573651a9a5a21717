import Jst.Remote.Batches
/-!
# The client of the content-addressed store

`BatchUpdateBlobs` and `BatchReadBlobs` of `bazel_cas_client.cpp`. Digests are those of the wire,
and sets of blobs and digests compare their hashes. A set is iterated in an order that is not known:
a set that is an argument is a list, and the set of missing blobs is arranged by a parameter. What
is only logged is left out.
-/
namespace Jst.Remote

/-- `ArtifactBlob`, with the digest of the wire. -/
structure CasBlob where
  digest : BazelDigest
  /-- What `ReadContent` returns. -/
  readContent : Option Str

/-- `BatchUpdateBlobsRequest_Request`. -/
structure UpdateItem where
  digest : BazelDigest
  data : Str

/-- `ByteSizeLong` of an item to update; the digest is always written. -/
def UpdateItem.byteSizeLong (item : UpdateItem) : Nat :=
  fieldLength item.digest.byteSizeLong + stringFieldLength item.data

/-- `BatchReadBlobsResponse_Response`, without its status. -/
structure ReadItem where
  digest : BazelDigest
  data : Str

/-- The server, the streams to it, and the other threads. -/
structure CasServer (World : Type) where
  capabilities : CapabilitiesClient World
  /-- The request `BatchUpdateBlobs`. -/
  batchUpdate : World → BatchRequest UpdateItem → Reply BazelDigest × World
  /-- The request `BatchReadBlobs`. -/
  batchRead : World → BatchRequest BazelDigest → Reply ReadItem × World
  /-- `ByteStreamClient::Write` — whether the server has committed the blob. -/
  write : World → CasBlob → Bool × World
  read : World → BazelDigest → Option CasBlob × World

section Client

variable {World : Type} (server : CasServer World) (instanceName : Str) (attempts : Nat)

/-! ## Updating -/

/-- `updated.contains`. -/
def containsDigest (digests : List BazelDigest) (digest : BazelDigest) : Bool :=
  digests.any fun other => other.hash == digest.hash

/-- `std::inserter` into a set of digests. -/
def insertDigests (digests : List BazelDigest) (others : List BazelDigest) : List BazelDigest :=
  others.foldl (fun digests digest =>
    if containsDigest digests digest then digests else digests ++ [digest]) digests

/-- The transfer of `BatchUpdateBlobs`; a blob that is not transferred in a batch is left for later.
-/
def updateTransfer : Transfer World CasBlob UpdateItem BazelDigest BazelDigest (CasBlob × Bool)
    (List BazelDigest) where
  requestCreator blob :=
    blob.readContent.map fun content =>
      { instanceName := instanceName, items := [{ digest := blob.digest, data := content }] }
  itemSize := UpdateItem.byteSizeLong
  contentSize blob := blob.digest.contentSize
  send := server.batchUpdate
  inserter digests digest := digests ++ [digest]
  accept := insertDigests
  fallback _ updated world := (updated, [], world)

/-- What happens while blobs are updated. -/
abbrev UpdateEvent := Event UpdateItem BazelDigest (CasBlob × Bool)

/-- `UpdateSingleBlob` for each blob, and how many succeed. -/
def updateSingleBlobs : List CasBlob → World → Nat × List UpdateEvent × World
  | [], world => (0, [], world)
  | blob :: rest, world =>
    let (written, world) := server.write world blob
    let (count, events, world) := updateSingleBlobs rest world
    (count + written.toNat, .stream (blob, written) :: events, world)

/-- `BazelCasClient::BatchUpdateBlobs` — the number of updated blobs and the events. The number of
nested calls is bounded; `none` is returned if the bound does not suffice. -/
def batchUpdateBlobs (arrange : List CasBlob → List CasBlob) :
    Nat → List CasBlob → World → Option (Nat × List UpdateEvent × World)
  | 0, _, _ => none
  | calls + 1, blobs, world =>
    if blobs.isEmpty then some (0, [], world)
    else
      let (maxContentSize, world) := server.capabilities.getMaxBatchTransferSize world
      let done := batchLoop (updateTransfer server instanceName) server.capabilities attempts
        { maxContentSize := maxContentSize
          remaining := blobs
          result := []
          events := [.limit maxContentSize]
          world := world }
      let updated := done.result
      let complete := blobs.length == updated.length  -- nothing is missing
      if !updated.isEmpty && !complete then
        let missingBlobs := arrange (blobs.filter fun blob => !containsDigest updated blob.digest)
        (batchUpdateBlobs arrange calls missingBlobs done.world).map
          fun (count, events, world) => (updated.length + count, done.events ++ events, world)
      else if updated.isEmpty && !complete then
        -- no progress at all: upload each blob sequentially
        let (count, events, world) := updateSingleBlobs server blobs done.world
        some (count, done.events ++ events, world)
      else some (updated.length, done.events, done.world)

/-! ## Reading -/

/-- `emplace` into a set of blobs. -/
def emplaceBlob (blobs : List CasBlob) (blob : CasBlob) : List CasBlob :=
  if blobs.any fun other => other.digest.hash == blob.digest.hash then blobs else blobs ++ [blob]

variable (fromTempFile : BazelDigest → Str → Option CasBlob)

/-- The transfer of `BatchReadBlobs`; a blob that is not transferred in a batch is read on a stream.
`fromTempFile` stands for `ArtifactBlob::FromTempFile`, with the type and the hash function of a
digest. -/
def readTransfer (digests : List BazelDigest) :
    Transfer World BazelDigest BazelDigest ReadItem CasBlob (BazelDigest × Option CasBlob)
      (List CasBlob) where
  requestCreator digest := some { instanceName := instanceName, items := [digest] }
  itemSize := BazelDigest.byteSizeLong
  contentSize := BazelDigest.contentSize
  send := server.batchRead
  inserter blobs response :=
    match digests.find? fun digest => digest.hash == response.digest.hash with
    | none => blobs
    | some reference =>
      match fromTempFile reference response.data with
      | none => blobs
      | some blob => blobs ++ [blob]
  accept := List.foldl emplaceBlob
  fallback digest blobs world :=
    let (blob, world) := server.read world digest
    (blob.toList.foldl emplaceBlob blobs, [(digest, blob)], world)

/-- What happens while blobs are read. -/
abbrev ReadEvent := Event BazelDigest ReadItem (BazelDigest × Option CasBlob)

/-- `BazelCasClient::BatchReadBlobs` — the blobs and the events. -/
def batchReadBlobs (digests : List BazelDigest) (world : World) :
    List CasBlob × List ReadEvent × World :=
  if digests.isEmpty then ([], [], world)
  else
    let (maxContentSize, world) := server.capabilities.getMaxBatchTransferSize world
    let done := batchLoop (readTransfer server instanceName fromTempFile digests)
      server.capabilities attempts
      { maxContentSize := maxContentSize
        remaining := digests
        result := []
        events := [.limit maxContentSize]
        world := world }
    (done.result, done.events, done.world)

end Client

end Jst.Remote
