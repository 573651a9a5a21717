import Jst.Remote.Digest
/-!
# Digests on the wire

An artifact digest whose size fits is written and read back unchanged. A received digest is only
checked for the length of its tag, so it is written back unchanged exactly if the tag is one of the
two that are ever written.
-/
namespace Jst.Verif.DigestFormat

open Remote Remote.ArtifactDigestFactory Remote.BazelDigestFactory

/-- The digest can be written, and is read back as it was. -/
def Returns (digest : ArtifactDigest) : Prop :=
  ∃ written, toBazel digest = some written ∧ fromBazel digest.hashInfo.hashType written = .ok digest

/-- The length of a hash on the wire, including the tag. -/
def fullLength (type : Remote.HashType) : Nat :=
  if type.isNative then type.hashLength + tagLength else type.hashLength

/-- What is accepted is written back as it was received. -/
def Exact (type : Remote.HashType) (received : BazelDigest) : Prop :=
  ∀ digest, fromBazel type received = .ok digest → toBazel digest = some received

/-- The hash on the wire without its tag. -/
def untagged (type : Remote.HashType) (hash : Str) : Str :=
  if type.isNative then dropTag hash else hash

/-- A native hash has the tag of a blob or that of a tree. -/
def HasTag (type : Remote.HashType) (hash : Str) : Prop :=
  type.isNative = true → hash.take tagLength = blobTag ∨ hash.take tagLength = treeTag

/-- The conditions under which nothing is lost: the hash is rejected, or tag and size are valid. -/
def WellFormed (type : Remote.HashType) (received : BazelDigest) : Prop :=
  Remote.isHexString (untagged type received.hash) = true →
    HasTag type received.hash ∧ 0 ≤ received.sizeBytes.toInt

variable {type : Remote.HashType}

theorem returns_iff (digest : ArtifactDigest) : Returns digest ↔ digest.size.toNat < 2 ^ 63 := by
  unfold Returns
  constructor
  · rintro ⟨written, write, -⟩
    unfold toBazel at write
    split at write
    · next small => exact small
    · cases write
  · intro small
    have write : toBazel digest = some (create digest.hashInfo
        (Int64.ofNat digest.size.toNat)) := if_pos small
    exact ⟨_, write, fromBazel_toBazel write⟩

variable {hash : Str}

theorem length_untagged (full : hash.length = fullLength type) :
    (untagged type hash).length = type.hashLength := by
  unfold untagged fullLength at *
  cases native : type.isNative with
  | true =>
    rw [native, if_pos rfl] at full
    rw [if_pos rfl, dropTag, length_drop, full]
    omega
  | false =>
    rw [native, if_neg false_ne_true] at full
    rw [if_neg false_ne_true, full]

theorem isTagged_full (full : hash.length = fullLength type) :
    isTagged type hash = type.isNative := by
  unfold isTagged
  unfold fullLength at full
  cases native : type.isNative with
  | true =>
    rw [native, if_pos rfl] at full
    rw [full]
    exact beq_self_eq_true _
  | false =>
    rw [native, if_neg false_ne_true] at full
    rw [full]
    exact beq_eq_false_iff_ne.mpr (by unfold tagLength; omega)

variable {received : BazelDigest}

theorem toHashInfo_full (full : received.hash.length = fullLength type) :
    toHashInfo type received = HashInfo.create type (untagged type received.hash)
      (type.isNative && treeTag.isPrefixOf received.hash) := by
  simp only [toHashInfo, isTagged_full full, untagged]

variable {info : HashInfo}

theorem create_ok {isTree : Bool} (created : HashInfo.create type hash isTree = .ok info) :
    info.hash = hash ∧ info.hashType = type ∧ info.isTree = isTree := by
  unfold HashInfo.create at created
  split at created
  · cases created
  · cases created
    exact ⟨rfl, rfl, rfl⟩

theorem create_full_iff (full : received.hash.length = fullLength type) :
    (∃ info, toHashInfo type received = .ok info) ↔
      Remote.isHexString (untagged type received.hash) = true := by
  have allowed : ((type.isNative && treeTag.isPrefixOf received.hash) && !type.isTreeAllowed) =
      false := by
    unfold HashType.isTreeAllowed
    cases type.isNative <;> simp
  rw [toHashInfo_full full]
  unfold HashInfo.create
  split
  · next error failed =>
    simp only [validateInput, allowed, length_untagged full, false_eq_true, ↓reduceIte,
      ne_eq, not_true_eq_false] at failed
    cases digits : Remote.isHexString (untagged type received.hash) with
    | true => simp [digits] at failed
    | false => simp
  · next passed =>
    simp only [validateInput, allowed, length_untagged full, false_eq_true, ↓reduceIte,
      ne_eq, not_true_eq_false] at passed
    cases digits : Remote.isHexString (untagged type received.hash) with
    | true => exact iff_of_true ⟨_, rfl⟩ rfl
    | false => simp [digits] at passed

theorem isPrefixOf_treeTag (hash : Str) :
    treeTag.isPrefixOf hash = true ↔ hash.take tagLength = treeTag := by
  rw [List.isPrefixOf_iff_prefix, List.prefix_iff_eq_take]
  exact eq_comm

theorem create_toHashInfo_iff
    (full : received.hash.length = fullLength type) (read : toHashInfo type received = .ok info)
    (size : Int64) : (create info size).hash = received.hash ↔ HasTag type received.hash := by
  rw [toHashInfo_full full] at read
  obtain ⟨hash, function, isTree⟩ := create_ok read
  unfold create HasTag
  rw [hash, function, isTree]
  unfold untagged
  cases native : type.isNative with
  | false => simp
  | true =>
    -- Behind the tag nothing changes, so the tags are compared.
    have parts : received.hash = received.hash.take tagLength ++ dropTag received.hash :=
      (List.take_append_drop _ _).symm
    have same : ∀ tag : Str, tag ++ dropTag received.hash = received.hash ↔
        received.hash.take tagLength = tag := by
      intro tag
      conv_lhs => rhs; rw [parts]
      rw [List.append_left_inj]
      exact eq_comm
    simp only [↓reduceIte, Bool.true_and, forall_const, addTag, same]
    cases tree : treeTag.isPrefixOf received.hash with
    | true => simp [(isPrefixOf_treeTag _).mp tree]
    | false =>
      have other : received.hash.take tagLength ≠ treeTag := by
        rw [ne_eq, ← isPrefixOf_treeTag, tree]
        exact false_ne_true
      simp [other]

theorem narrow_iff (size : Int64) :
    (size.toUInt64.toNat < 2 ^ 63 ∧ Int64.ofNat size.toUInt64.toNat = size) ↔ 0 ≤ size.toInt := by
  have back : Int64.ofNat size.toUInt64.toNat = size := by simp [Int64.ofNat]
  have value : size.toInt = size.toBitVec.toInt := rfl
  have bits : size.toUInt64.toNat = size.toBitVec.toNat := rfl
  rw [and_iff_left back, value, bits, BitVec.toInt_eq_toNat_cond]
  have bound := size.toBitVec.isLt
  split <;> omega

theorem toBazel_fromBazel_iff
    (full : received.hash.length = fullLength type) (read : toHashInfo type received = .ok info) :
    toBazel { hashInfo := info, size := received.sizeBytes.toUInt64 } = some received ↔
      HasTag type received.hash ∧ 0 ≤ received.sizeBytes.toInt := by
  rw [← create_toHashInfo_iff full read received.sizeBytes, ← narrow_iff]
  unfold toBazel
  constructor
  · intro write
    split at write
    · next small =>
      have written := some.inj write
      have size : Int64.ofNat received.sizeBytes.toUInt64.toNat = received.sizeBytes :=
        congrArg BazelDigest.sizeBytes written
      have hash := congrArg BazelDigest.hash written
      exact ⟨hash, small, size⟩
    · cases write
  · rintro ⟨hash, small, size⟩
    have same : create info (Int64.ofNat received.sizeBytes.toUInt64.toNat) = received := by
      rw [size]
      exact (BazelDigest.mk.injEq ..).mpr ⟨hash, rfl⟩
    rw [if_pos small, same]

theorem exact_iff (full : received.hash.length = fullLength type) :
    Exact type received ↔ WellFormed type received := by
  unfold Exact WellFormed fromBazel
  rw [← create_full_iff full]
  cases read : toHashInfo type received with
  | error failure => simp
  | ok info =>
    simp only [ok.injEq, forall_eq', exists_eq', forall_const]
    exact toBazel_fromBazel_iff full read

/-- Artifact digests are read back exactly if their size fits, and received digests of full length
are written back exactly if their hash is rejected or their tag and size are valid. -/
theorem digest_format_exact (type : Remote.HashType) :
    (∀ digest : ArtifactDigest, digest.hashInfo.hashType = type →
      (Returns digest ↔ digest.size.toNat < 2 ^ 63)) ∧
    ∀ received : BazelDigest, received.hash.length = fullLength type →
      (Exact type received ↔ WellFormed type received) :=
  ⟨fun digest _ => returns_iff digest, fun _ full => exact_iff full⟩

/-- A digest of three bytes with the given tag. -/
def sample (tag : Str) : BazelDigest where
  hash := tag ++ replicate 40 48
  sizeBytes := 3

theorem digest_format_exact_tree : Exact .gitSHA1 (sample treeTag) :=
  ((digest_format_exact .gitSHA1).2 (sample treeTag) (by decide)).mpr
    fun _ => ⟨fun _ => .inr (by decide), by decide⟩

theorem wrong_tag_accepted :
    (sample (lit "xx")).hash.length = fullLength .gitSHA1 ∧
      (∃ digest, fromBazel .gitSHA1 (sample (lit "xx")) = .ok digest) ∧
      ¬ Exact .gitSHA1 (sample (lit "xx")) := by
  have full : (sample (lit "xx")).hash.length = fullLength .gitSHA1 := by decide
  have digits : Remote.isHexString (untagged .gitSHA1 (sample (lit "xx")).hash) = true := by decide
  refine ⟨full, ?_, ?_⟩
  · obtain ⟨info, read⟩ := (create_full_iff full).mpr digits
    exact ⟨_, by rw [fromBazel, read]⟩
  · rw [exact_iff full]
    intro wellFormed
    have tag := (wellFormed digits).1 rfl
    revert tag
    decide

end Jst.Verif.DigestFormat
