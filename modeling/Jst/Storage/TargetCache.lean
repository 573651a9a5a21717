import Jst.Expression.TargetResult
import Jst.Remote.ByteStream
import Jst.Storage.Uplinker
/-!
# The cache of export targets

The entry of a target is the JSON of its result, with the keys of the export targets that are
implied. A key file names the blob of an entry. An uplink copies the implied entries, the artifacts
and the blob of the entry to the youngest generation, and the key file in the end.
-/
namespace Jst.Storage

open Expression SortedMap

/-- `std::getline` — nothing at the end of the text. -/
def getline (delimiter : UInt8) (text : Str) : Option (Str × Str) :=
  if text.isEmpty then none
  else some (text.takeWhile (· ≠ delimiter), (text.dropWhile (· ≠ delimiter)).tail)

/-- `Artifact::ObjectInfo::FromString`. -/
def readObjectInfo (hashType : HashType) (text : Str) : Option ObjectInfo :=
  match text with
  | 91 :: rest => do
    let (id, rest) ← getline 58 rest
    let (sizeText, rest) ← getline 58 rest
    let (type, _) ← getline 93 rest
    let size ← Remote.ByteStream.stoul sizeText
    if ArtifactDescription.isDigest hashType id then
      some ⟨id, size, .fromChar (type.headD 0)⟩
    else none
  | _ => none

/-- What a loop over a JSON value iterates over. -/
def jsonElements : JsonValue → List JsonValue
  | .array items => items
  | .object fields => fields.map snd
  | .null => []
  | value => [value]

namespace TargetCacheEntry

/-- The implied keys are added to an entry, unless there are none. -/
def withImplied (implied : List Str) : JsonValue → JsonValue
  | .object fields =>
    if implied.isEmpty then .object fields
    else .object (insert (lit "implied export targets") (.array (implied.map .string)) fields)
  | other => other

/-- `TargetCacheEntry::FromTarget` — nothing if the result cannot be written. The outer `none` is
the end of the program. -/
def fromTarget (doubleText : Number.Double → Str) (sha : Str → Str) (result : TargetResult)
    (implied : List Str) (replacements : Replacements) : Option (Option JsonValue) :=
  (result.replaceNonKnownAndToJson doubleText sha replacements).map
    (·.map (withImplied implied))

/-- The strings up to the first value that is none, which is an exception. -/
def leadingStrings : List JsonValue → List Str
  | .string text :: rest => text :: leadingStrings rest
  | _ => []

def toImplied (desc : JsonValue) : List Str :=
  match jsonField desc "implied export targets" with
  | none => []
  | some value =>
    (emplaceAll ((leadingStrings (jsonElements value)).map (·, ())) []).map fst

section Artifacts

variable (hashType : HashType)

/-- `ToObjectInfo` — the artifact is expected to be known. -/
def toObjectInfo (json : JsonValue) : Option ObjectInfo :=
  match ArtifactDescription.fromJson hashType json with
  | some (.known hash size type) => some ⟨hash, size, type⟩
  | _ => none

def scanArtifactMap : JsonValue → Option (List ObjectInfo)
  | .object fields => fields.mapM fun field => toObjectInfo hashType field.2
  | _ => none

/-- The artifact that a table has at an identifier. -/
def scanProvided (nodes : JsonValue) : JsonValue → Option ObjectInfo
  | .string id =>
    match nodes with
    | .object fields => (find id fields).bind (toObjectInfo hashType)
    | _ => none
  | _ => none

def scanProvidesMap (json : JsonValue) : Option (List ObjectInfo) := do
  let nodes ← jsonField json "nodes"
  let provided ← jsonField json "provided_artifacts"
  (jsonElements provided).mapM (scanProvided hashType nodes)

def toArtifacts (desc : JsonValue) : Option (List ObjectInfo) := do
  let artifacts ← scanArtifactMap hashType (← jsonField desc "artifacts")
  let runfiles ← scanArtifactMap hashType (← jsonField desc "runfiles")
  let provided ← scanProvidesMap hashType (← jsonField desc "provides")
  some (artifacts ++ runfiles ++ provided)

end Artifacts

end TargetCacheEntry

/-- The generations of a storage with their target caches. -/
structure TcState where
  gens : Generations Str
  keys : Nat → Str → Option Str

/-- A loop that ends when one call fails, or does not end. -/
def allEnding {Item State : Type} (call : Item → State → Option (Bool × State)) :
    List Item → State → Option (Bool × State)
  | [], state => some (true, state)
  | item :: rest, state =>
    match call item state with
    | none => none
    | some (false, state) => some (false, state)
    | some (true, state) => allEnding call rest state

namespace TargetCache

open Generations TargetCacheEntry

variable (protocol : Protocol Str) (hashType : HashType) (parse : Str → Option JsonValue)
  (depth : Str → Nat) (i : Nat)

/-- The entry that a key names in a generation: the key file, the hash of the blob and the JSON. -/
def readEntry (key : Str) (state : TcState) : Option (Str × Str × JsonValue) × TcState :=
  match state.keys i key with
  | none => (none, state)
  | some file =>
    match readObjectInfo hashType file with
    | none => (none, state)
    | some info =>
      let (content, gens) := blobPath protocol.hashes i info.hash false state.gens
      ((content.bind parse).map (file, info.hash, ·), { state with gens })

/-- An artifact is uplinked. -/
def uplinkArtifact (info : ObjectInfo) (gens : Generations Str) : Bool × Generations Str :=
  if info.type = .tree then localUplinkTree protocol 2 i (depth info.hash) info.hash false gens
  else localUplinkBlob protocol.hashes 2 i info.hash (info.type = .executable) false false gens

/-- The uplinks after those of the implied entries: the artifacts, the blob of the entry, and the
key file. -/
def uplinkContent (key file hash : Str) (desc : JsonValue) (state : TcState) : Bool × TcState :=
  match toArtifacts hashType desc with
  | none => (false, state)
  | some infos =>
    match allOf (uplinkArtifact protocol depth i) infos state.gens with
    | (false, gens) => (false, { state with gens })
    | (true, gens) =>
      match localUplinkBlob protocol.hashes 2 i hash false false false gens with
      | (false, gens) => (false, { state with gens })
      | (true, gens) =>
        (true,
          { gens
            keys := update state.keys 0
              (update (state.keys 0) key (some file)) })

/-- `TargetCache::LocalUplinkEntry` — from a generation to the youngest one. It is a recursion over
the implied entries, of which there is no result if it is deeper than the fuel. -/
def localUplinkEntry : Nat → Str → TcState → Option (Bool × TcState)
  | 0, _, _ => none
  | fuel + 1, key, state =>
    if (state.keys 0 key).isSome then some (true, state)
    else
      match readEntry protocol hashType parse i key state with
      | (none, state) => some (false, state)
      | (some (file, hash, desc), state) =>
        match allEnding (localUplinkEntry fuel) ((toImplied desc).filter (· ≠ key)) state with
        | none => none
        | some (false, state) => some (false, state)
        | some (true, state) =>
          some (uplinkContent protocol hashType depth i key file hash desc state)

end TargetCache

end Jst.Storage
