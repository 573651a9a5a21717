import Jst.Execution.DirectoryTree
import Jst.Remote.Batches
/-!
# Uploading a tree of directories

`CommonUploadTreeNative` uploads the blobs of a directory tree to a remote store, content first: it
asks which of the blobs below a blob are missing, uploads what is below each of those, and then the
missing ones, in containers of limited size. The remote store is an `ExecutionApi` on some `World`.
The blobs that it stores are written down, in the order in which they are stored.
-/
namespace Jst.Execution

open Tree Remote

/-- `IExecutionApi`, as far as trees are uploaded. -/
structure ExecutionApi (Hash World : Type) where
  isAvailable : ArtifactDigest Hash → World → Bool × World
  getMissingDigests : List (ArtifactDigest Hash) → World → List (ArtifactDigest Hash) × World
  /-- `Upload`, without looking for missing blobs first: whether it reports success, and the blobs
  that are stored one after the other. -/
  upload : List (ArtifactBlob Hash) → World → Bool × List (ArtifactBlob Hash) × World

/-- The world, and the blobs that have been stored so far. -/
structure UploadState (Hash World : Type) where
  world : World
  uploaded : List (ArtifactBlob Hash)

/-- The digests of the nodes of a blob tree. -/
def BlobNodes.digests {Hash : Type} : BlobNodes Hash → List (ArtifactDigest Hash)
  | .nil => []
  | .node blob _ rest => blob.digest :: digests rest

namespace ExecutionApi

variable {Hash World Artifact : Type} [DecidableEq Hash] (api : ExecutionApi Hash World)

/-- `Upload`, with the stored blobs written down. -/
def uploadBlobs (blobs : List (ArtifactBlob Hash)) (state : UploadState Hash World) :
    Bool × UploadState Hash World :=
  let (success, stored, world) := api.upload blobs state.world
  (success, { world := world, uploaded := state.uploaded ++ stored })

/-- `UpdateContainerAndUpload` — the container never holds more than a transfer allows. -/
def updateContainerAndUpload (container : List (ArtifactBlob Hash)) (blob : ArtifactBlob Hash)
    (state : UploadState Hash World) :
    Bool × List (ArtifactBlob Hash) × UploadState Hash World :=
  if MessageLimits.maxGrpcLength < blob.contentSize then
    let (success, state) := api.uploadBlobs [blob] state
    (success, container, state)
  else if container.any fun other => other.digest = blob.digest then (true, container, state)
  else
    let contentSize := (container.map ArtifactBlob.contentSize).sum
    if MessageLimits.maxGrpcLength < contentSize + blob.contentSize then
      let (success, state) := api.uploadBlobs container state
      (success, if success then [blob] else [], state)
    else (true, container ++ [blob], state)

/-- The frame of `CommonUploadBlobTree`: ask for the missing ones of some digests, process them with
an empty container, and upload what remains in it. -/
def withMissing (digests : List (ArtifactDigest Hash))
    (process : List (ArtifactDigest Hash) → List (ArtifactBlob Hash) → UploadState Hash World →
      Bool × List (ArtifactBlob Hash) × UploadState Hash World)
    (state : UploadState Hash World) : Bool × UploadState Hash World :=
  let (missing, world) := api.getMissingDigests digests.dedup state.world
  let (success, container, state) := process missing [] { state with world := world }
  if success then api.uploadBlobs container state else (false, state)

/-- The loop of `CommonUploadBlobTree` over the missing nodes; the first node stands for all with
its digest. -/
def processMissing : BlobNodes Hash → List (ArtifactDigest Hash) → List (ArtifactBlob Hash) →
    UploadState Hash World → Bool × List (ArtifactBlob Hash) × UploadState Hash World
  | .nil, _, container, state => (true, container, state)
  | .node blob below rest, missing, container, state =>
    if blob.digest ∈ missing then
      let (success, state) :=
        if blob.digest.isTree then api.withMissing below.digests (processMissing below) state
        else (true, state)
      if success then
        let (success, container, state) := api.updateContainerAndUpload container blob state
        if success then
          processMissing rest (missing.filter (· ≠ blob.digest)) container state
        else (false, container, state)
      else (false, container, state)
    else processMissing rest missing container state

def commonUploadBlobTree (nodes : BlobNodes Hash) (state : UploadState Hash World) :
    Bool × UploadState Hash World :=
  api.withMissing nodes.digests (api.processMissing nodes) state

def commonUploadTreeNative (treeId : GitTree Hash → Hash)
    (info : Artifact → Option (Tree.ObjectType × Hash)) (buildRoot : DirectoryTree Artifact)
    (state : UploadState Hash World) : Option (ArtifactDigest Hash) × UploadState Hash World :=
  match BlobTree.fromDirectoryTree treeId info buildRoot with
  | none => (none, state)
  | some blobTree =>
    let treeBlob := blobTree.blob
    let (available, world) := api.isAvailable treeBlob.digest state.world
    let state := { state with world := world }
    if available then (some treeBlob.digest, state)
    else
      let (success, state) := api.commonUploadBlobTree blobTree.nodes state
      if success then
        let (success, state) := api.uploadBlobs [treeBlob] state
        (if success then some treeBlob.digest else none, state)
      else (none, state)

end ExecutionApi

end Jst.Execution
