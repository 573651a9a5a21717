import Jst.Data.Bytes
/-!
# Digests

A digest is written to a message with the hash in hexadecimal digits; in native mode the hash is
prefixed with a tag that tells whether it is that of a tree. A hash that is read is validated, so
that an invalid one is never part of a digest.
-/
namespace Jst.Remote

/-- `HashFunction::Type`. -/
inductive HashType where
  | gitSHA1
  | plainSHA256
deriving DecidableEq

namespace HashType

def toString : HashType → Str
  | gitSHA1 => lit "git-SHA1"
  | plainSHA256 => lit "plain-SHA256"

/-- `Hasher::GetHashLength` — the number of hexadecimal digits. -/
def hashLength : HashType → Nat
  | gitSHA1 => 40
  | plainSHA256 => 64

def isNative (type : HashType) : Bool := type == gitSHA1

def isTreeAllowed (type : HashType) : Bool := type.isNative

end HashType

/-- `std::isxdigit`. -/
def isHexDigit (byte : UInt8) : Bool :=
  (48 ≤ byte && byte ≤ 57) || (65 ≤ byte && byte ≤ 70) || (97 ≤ byte && byte ≤ 102)

def isHexString (text : Str) : Bool := text.all isHexDigit

/-- The decimal digits of a length, as `fmt::format` prints them. -/
def lengthText (length : Nat) : Str := lit (toString length)

/-- `HashInfo::ValidateInput` — the error, if there is one. -/
def validateInput (type : HashType) (hash : Str) (isTree : Bool) : Option Str :=
  if isTree && !type.isTreeAllowed then
    some (lit "HashInfo: hash " ++ hash ++ lit " is expected to be " ++ type.toString ++
      lit ".\nTrees are not allowed in this mode.")
  else if hash.length ≠ type.hashLength then
    some (lit "HashInfo: hash " ++ hash ++ lit " is expected to be " ++ type.toString ++
      lit ".\n It must have a length of " ++ lengthText type.hashLength ++
      lit ", but its length is " ++ lengthText hash.length ++ lit ".")
  else if !isHexString hash then
    some (lit "HashInfo: Invalid hash " ++ hash)
  else none

/-- `HashInfo` — a validated hash. -/
structure HashInfo where
  hash : Str
  hashType : HashType
  isTree : Bool
  valid : validateInput hashType hash isTree = none

namespace HashInfo

def create (type : HashType) (hash : Str) (isTree : Bool) : Except Str HashInfo :=
  match valid : validateInput type hash isTree with
  | some error => .error error
  | none => .ok { hash := hash, hashType := type, isTree := isTree, valid := valid }

theorem create_self (info : HashInfo) : create info.hashType info.hash info.isTree = .ok info := by
  unfold create
  split
  · next error failed =>
    rw [info.valid] at failed
    cases failed
  · rfl

theorem length_hash (info : HashInfo) : info.hash.length = info.hashType.hashLength := by
  have valid := info.valid
  unfold validateInput at valid
  split at valid
  · cases valid
  · split at valid
    · cases valid
    · next _ fits => exact not_not.mp fits

theorem isTree_isNative (info : HashInfo) (isTree : info.isTree = true) :
    info.hashType.isNative = true := by
  have valid := info.valid
  unfold validateInput at valid
  split at valid
  · cases valid
  · next allowed =>
    rw [isTree, Bool.true_and, Bool.not_eq_true, Bool.not_eq_false'] at allowed
    exact allowed

end HashInfo

structure ArtifactDigest where
  hashInfo : HashInfo
  /-- The size of the content, a `size_t`. -/
  size : UInt64

/-- `bazel_re::Digest`. -/
structure BazelDigest where
  hash : Str
  /-- The size, an `int64`. -/
  sizeBytes : Int64
deriving DecidableEq

namespace BazelDigestFactory

/-- `kBlobTag`. -/
def blobTag : Str := lit "62"

/-- `kTreeTag`. -/
def treeTag : Str := lit "74"

/-- `kTagLength`. -/
def tagLength : Nat := 2

/-- `BazelDigestFactory::Prefix`. -/
def addTag (hash : Str) (isTree : Bool) : Str := (if isTree then treeTag else blobTag) ++ hash

/-- `BazelDigestFactory::Unprefix`. -/
def dropTag (hash : Str) : Str := hash.drop tagLength

/-- `BazelDigestFactory::IsPrefixed`. -/
def isTagged (type : HashType) (hash : Str) : Bool := hash.length == type.hashLength + tagLength

def create (info : HashInfo) (size : Int64) : BazelDigest where
  hash := if info.hashType.isNative then addTag info.hash info.isTree else info.hash
  sizeBytes := size

def toHashInfo (type : HashType) (digest : BazelDigest) : Except Str HashInfo :=
  let tagged := isTagged type digest.hash
  let hash := if tagged then dropTag digest.hash else digest.hash
  HashInfo.create type hash (tagged && treeTag.isPrefixOf digest.hash)

theorem length_tag (isTree : Bool) : (if isTree then treeTag else blobTag).length = tagLength := by
  cases isTree <;> decide

theorem toHashInfo_create (info : HashInfo) (size : Int64) :
    toHashInfo info.hashType (create info size) = .ok info := by
  cases native : info.hashType.isNative with
  | true =>
    have written : (create info size).hash = addTag info.hash info.isTree := if_pos native
    have tagged : isTagged info.hashType (addTag info.hash info.isTree) = true := by
      rw [isTagged, addTag, length_append, length_tag, info.length_hash, Nat.add_comm]
      exact beq_self_eq_true _
    have dropped : dropTag (addTag info.hash info.isTree) = info.hash :=
      List.drop_left' (length_tag info.isTree)
    have isTree : treeTag.isPrefixOf (addTag info.hash info.isTree) = info.isTree := by
      unfold addTag
      cases info.isTree <;> rfl
    simp only [toHashInfo, written, tagged, ↓reduceIte, dropped, isTree, Bool.true_and]
    exact info.create_self
  | false =>
    have written : (create info size).hash = info.hash :=
      if_neg (by rw [native]; exact false_ne_true)
    have tagged : isTagged info.hashType info.hash = false := by
      rw [isTagged, info.length_hash]
      exact beq_eq_false_iff_ne.mpr (by unfold tagLength; omega)
    have noTree : info.isTree = false := by
      cases isTree : info.isTree with
      | false => rfl
      | true => exact absurd (info.isTree_isNative isTree) (by rw [native]; exact false_ne_true)
    simp only [toHashInfo, written, tagged, false_eq_true, ↓reduceIte, Bool.false_and]
    exact noTree ▸ info.create_self

end BazelDigestFactory

namespace ArtifactDigestFactory

/-- `ArtifactDigestFactory::ToBazel` — the size must fit, else `gsl::narrow` throws. -/
def toBazel (digest : ArtifactDigest) : Option BazelDigest :=
  if digest.size.toNat < 2 ^ 63 then
    some (BazelDigestFactory.create digest.hashInfo (Int64.ofNat digest.size.toNat))
  else none

def fromBazel (type : HashType) (digest : BazelDigest) : Except Str ArtifactDigest :=
  match BazelDigestFactory.toHashInfo type digest with
  | .error error => .error error
  | .ok info => .ok { hashInfo := info, size := digest.sizeBytes.toUInt64 }

theorem fromBazel_toBazel {digest : ArtifactDigest} {written : BazelDigest}
    (write : toBazel digest = some written) :
    fromBazel digest.hashInfo.hashType written = .ok digest := by
  unfold toBazel at write
  split at write
  · next small =>
    cases write
    have size : (Int64.ofNat digest.size.toNat).toUInt64 = digest.size := by
      simp [Int64.ofNat]
    unfold fromBazel
    rw [BazelDigestFactory.toHashInfo_create]
    show Except.ok ({ hashInfo := _, size := (Int64.ofNat digest.size.toNat).toUInt64 } :
      ArtifactDigest) = _
    rw [size]
  · cases write

end ArtifactDigestFactory

end Jst.Remote
