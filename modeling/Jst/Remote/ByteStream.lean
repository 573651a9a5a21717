import Jst.Remote.Digest
import Jst.Utils.Number
import Jst.Utils.Path
/-!
# Names of byte-stream resources

`bytestream_utils.cpp` writes an instance name, a uuid and a digest into one name, and splits a name
at its slashes to read them back.
-/
namespace Jst.Remote.ByteStream

/-- `kBlobs`. -/
def blobs : Str := lit "blobs"

/-- `kUploads`. -/
def uploads : Str := lit "uploads"

/-- `kOtherReservedFragments`. -/
def otherReservedFragments : List Str :=
  [lit "actions", lit "actionResults", lit "operations", lit "capabilities", lit "compressed-blobs"]

/-- The loop of `SplitRequest`: the part is what lies between `shift` and `shift + length`. Behind a
delimiter `length` is set to zero and then incremented, so the next byte is not looked at. -/
def splitLoop : Bool → Str → Str → List Str
  | _, part, [] => if part.isEmpty then [] else [part]
  | true, part, byte :: rest => splitLoop false (part ++ [byte]) rest
  | false, part, byte :: rest =>
    if byte = Path.slash then part :: splitLoop true [] rest
    else splitLoop false (part ++ [byte]) rest

def splitRequest (request : Str) : List Str := splitLoop false [] request

/-- `std::stoul` — throws without digits and out of range; a negative number wraps around. -/
def stoul (text : Str) : Option Nat :=
  let (negative, rest) := Number.readSign (text.dropWhile Number.isSpace)
  let (digits, _) := Number.readDigits rest
  let value := Number.digitsValue 10 digits
  if digits.isEmpty ∨ 2 ^ 64 ≤ value then none
  else some (if negative then (2 ^ 64 - value) % 2 ^ 64 else value)

/-- The search for a keyword: the index of the first part that is the keyword, unless a part that is
not allowed in an instance name comes first. -/
def findKeyword (keyword forbidden : Str) : List Str → Option Nat
  | [] => none
  | part :: rest =>
    if part = keyword then some 0
    else if part = forbidden then none
    else if part ∈ otherReservedFragments then none
    else (findKeyword keyword forbidden rest).map (· + 1)

/-- The parts of an instance name with slashes between them. -/
def joinParts : List Str → Str
  | [] => []
  | [part] => part
  | part :: rest => part ++ Path.slash :: joinParts rest

/-- A name starts with the instance name, if there is one. -/
def withInstance (instanceName resource : Str) : Str :=
  if instanceName.isEmpty then resource else instanceName ++ Path.slash :: resource

/-! ## Read requests -/

structure ReadRequest where
  instanceName : Str
  hash : Str
  size : Nat
deriving DecidableEq

/-- The format of a read request. -/
def ReadRequest.text (request : ReadRequest) : Str :=
  withInstance request.instanceName
    (joinParts [blobs, request.hash, Number.decimal request.size])

/-- The request for a digest. -/
def ReadRequest.ofDigest (instanceName : Str) (digest : ArtifactDigest) (bazel : BazelDigest) :
    ReadRequest := ⟨instanceName, bazel.hash, digest.size.toNat⟩

/-- `ReadRequest::ToString` — fails if the size of the digest does not fit. -/
def ReadRequest.toString (instanceName : Str) (digest : ArtifactDigest) : Option Str :=
  (ArtifactDigestFactory.toBazel digest).map fun bazel =>
    (ReadRequest.ofDigest instanceName digest bazel).text

def ReadRequest.fromString (request : Str) : Option ReadRequest := do
  let parts := splitRequest request
  let blobsIndex ← findKeyword blobs uploads parts
  if parts.length ≠ blobsIndex + 3 then none
  else
    let hash ← parts[blobsIndex + 1]?
    let size ← parts[blobsIndex + 2]?
    return ⟨joinParts (parts.take blobsIndex), hash, ← stoul size⟩

/-! ## Write requests -/

structure WriteRequest where
  instanceName : Str
  uuid : Str
  hash : Str
  size : Nat
deriving DecidableEq

/-- The format of a write request. -/
def WriteRequest.text (request : WriteRequest) : Str :=
  withInstance request.instanceName
    (joinParts [uploads, request.uuid, blobs, request.hash, Number.decimal request.size])

/-- The request for a digest. -/
def WriteRequest.ofDigest (instanceName uuid : Str) (digest : ArtifactDigest) (bazel : BazelDigest) :
    WriteRequest := ⟨instanceName, uuid, bazel.hash, digest.size.toNat⟩

/-- `WriteRequest::ToString` — fails if the size of the digest does not fit. -/
def WriteRequest.toString (instanceName uuid : Str) (digest : ArtifactDigest) : Option Str :=
  (ArtifactDigestFactory.toBazel digest).map fun bazel =>
    (WriteRequest.ofDigest instanceName uuid digest bazel).text

def WriteRequest.fromString (request : Str) : Option WriteRequest := do
  let parts := splitRequest request
  let uploadsIndex ← findKeyword uploads blobs parts
  if parts.length ≠ uploadsIndex + 5 ∨ parts[uploadsIndex + 2]? ≠ some blobs then none
  else
    let uuid ← parts[uploadsIndex + 1]?
    let hash ← parts[uploadsIndex + 3]?
    let size ← parts[uploadsIndex + 4]?
    return ⟨joinParts (parts.take uploadsIndex), uuid, hash, ← stoul size⟩

end Jst.Remote.ByteStream
