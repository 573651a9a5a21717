import Jst.Execution.ActionResult
import Jst.Storage.Uplinker
/-!
# The action cache of a generation

The entry of an action is a key file, which names the blob with the serialised result. An uplink
copies the objects that the result mentions, the blob and the key file to the youngest generation.
The serialisations are parameters.
-/
namespace Jst.Storage

open Execution

/-- The generations of a storage with their action caches. -/
structure AcState (Hash : Type) where
  gens : Generations Hash
  keys : Nat → Hash → Option Str

/-- How entries of the action cache are written. -/
structure AcFormat (Hash Digest : Type) where
  /-- `ReadActionKey` — the hash in a key file. -/
  readKey : Str → Option Hash
  /-- `ActionResult::ParseFromString`. -/
  readAction : Str → Option (ActionResult Digest)
  fromBazel : Digest → Option Hash

namespace LocalAc

open Generations

variable {Hash Digest : Type} [DecidableEq Hash] (protocol : Protocol Hash)
  (format : AcFormat Hash Digest) (fuel depth i : Nat)

/-- `ReadAction` — the result in a blob. -/
def readAction (key : Hash) (gens : Generations Hash) :
    Option (ActionResult Digest) × Generations Hash :=
  let (content, gens) := blobPath protocol.hashes i key false gens
  (content.bind format.readAction, gens)

/-- A blob of a digest is uplinked. -/
def uplinkDigest (digest : Digest) (executable : Bool) (gens : Generations Hash) :
    Bool × Generations Hash :=
  match format.fromBazel digest with
  | none => (false, gens)
  | some hash => localUplinkBlob protocol.hashes fuel i hash executable false false gens

/-- The target of a symbolic link is uplinked as a file. -/
def uplinkTarget (link : OutputSymlink) (gens : Generations Hash) : Bool × Generations Hash :=
  localUplinkBlob protocol.hashes fuel i (protocol.hashes.blob link.target) false false false gens

/-- An output directory is uplinked. -/
def uplinkDirectory (directory : OutputDirectory Digest) (gens : Generations Hash) :
    Bool × Generations Hash :=
  match format.fromBazel directory.treeDigest with
  | none => (false, gens)
  | some hash => localUplinkTree protocol fuel i depth hash false gens

/-- The uplinks of a result, one after the other. -/
def uplinkResult (result : ActionResult Digest) (gens : Generations Hash) :
    Bool × Generations Hash :=
  match allOf (fun file => uplinkDigest protocol format fuel i file.digest file.isExecutable)
      result.outputFiles gens with
  | (false, gens) => (false, gens)
  | (true, gens) =>
    match allOf (uplinkTarget protocol fuel i) result.outputFileSymlinks gens with
    | (false, gens) => (false, gens)
    | (true, gens) =>
      match allOf (uplinkTarget protocol fuel i) result.outputDirectorySymlinks gens with
      | (false, gens) => (false, gens)
      | (true, gens) =>
        allOf (uplinkDirectory protocol format fuel depth i) result.outputDirectories gens

/-- `LocalAC::LocalUplinkEntry` — from a generation to the youngest one. -/
def localUplinkEntry (actionId : Hash) (state : AcState Hash) : Bool × AcState Hash :=
  if (state.keys 0 actionId).isSome then (true, state)
  else
    match state.keys i actionId with
    | none => (false, state)
    | some file =>
      match format.readKey file with
      | none => (false, state)
      | some key =>
        match readAction protocol format i key state.gens with
        | (none, gens) => (false, { state with gens })
        | (some result, gens) =>
          match uplinkResult protocol format fuel depth i result gens with
          | (false, gens) => (false, { state with gens })
          | (true, gens) =>
            match localUplinkBlob protocol.hashes fuel i key false false false gens with
            | (false, gens) => (false, { state with gens })
            | (true, gens) =>
              (true,
                { gens
                  keys := update state.keys 0
                    (update (state.keys 0) actionId (some file)) })

end LocalAc

end Jst.Storage
