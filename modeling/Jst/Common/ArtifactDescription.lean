import Jst.Data.Json
import Jst.Data.SortedMap
import Jst.Utils.Number
/-!
# Artifact descriptions

An artifact is described by where it comes from. Descriptions are written as JSON, by which they are
also compared. What is neither written nor compared is left out: the repository of a known artifact
and the hash type of its digest.
-/
namespace Jst

open Number

/-- A number in a JSON value. -/
inductive JsonNumber where
  | double (value : Double)
  | unsigned (value : Nat)

/-- The text of a number; infinities and NaN have none. -/
def numberText (doubleText : Double → Str) : JsonNumber → Option Str
  | .double value => if value.isFinite then some (doubleText value) else none
  | .unsigned value => some (decimal value)

/-- What is known of the texts of doubles: they are made of the bytes of numbers, have a fraction or
an exponent, and no two finite doubles have the same one. -/
structure IsDoubleText (doubleText : Double → Str) : Prop where
  bytes : ∀ value, value.isFinite = true → ∀ byte ∈ doubleText value, Json.isNumberByte byte = true
  fractional : ∀ value, value.isFinite = true → 46 ∈ doubleText value ∨ 101 ∈ doubleText value
  injective : ∀ left right, left.isFinite = true → right.isFinite = true →
    doubleText left = doubleText right → left = right

theorem toUInt8_digit {digit : Char} (isDigit : digit.isDigit = true) :
    (48 ≤ digit.toUInt8.toNat ∧ digit.toUInt8.toNat ≤ 57) ∧
      Char.ofNat digit.toUInt8.toNat = digit := by
  have bounds : 48 ≤ digit.toNat ∧ digit.toNat ≤ 57 := by
    simpa [Char.isDigit, UInt32.le_iff_toNat_le] using isDigit
  have same : digit.toUInt8.toNat = digit.toNat := by
    show digit.val.toUInt8.toNat = digit.val.toNat
    have small : digit.val.toNat ≤ 57 := bounds.2
    rw [UInt32.toNat_toUInt8]
    omega
  rw [same]
  exact ⟨bounds, Char.ofNat_toNat digit⟩

theorem decimal_bytes (number : Nat) :
    ∀ byte ∈ decimal number, 48 ≤ byte.toNat ∧ byte.toNat ≤ 57 := by
  intro byte member
  obtain ⟨digit, inside, rfl⟩ := mem_map.mp member
  exact (toUInt8_digit (Nat.isDigit_of_mem_toDigits (by decide) (by decide) inside)).1

theorem decimal_injective {left right : Nat} (same : decimal left = decimal right) :
    left = right := by
  have digits : ∀ number, (decimal number).map (fun byte => Char.ofNat byte.toNat) =
      Nat.toDigits 10 number := by
    intro number
    unfold decimal
    rw [map_map]
    refine (map_congr_left fun digit inside => ?_).trans (List.map_id _)
    exact (toUInt8_digit (Nat.isDigit_of_mem_toDigits (by decide) (by decide) inside)).2
  rw [← @Nat.ofDigitChars_ten_toDigits left, ← digits, same, digits, Nat.ofDigitChars_ten_toDigits]

theorem isNumberText {doubleText : Double → Str} (doubles : IsDoubleText doubleText) :
    Json.IsNumberText (numberText doubleText) := by
  have noInteger : ∀ value number, value.isFinite = true → doubleText value ≠ decimal number := by
    intro value number finite same
    rcases doubles.fractional value finite with point | exponent
    · rw [same] at point
      exact absurd (decimal_bytes number 46 point) (by decide)
    · rw [same] at exponent
      exact absurd (decimal_bytes number 101 exponent) (by decide)
  constructor
  · intro value
    cases value with
    | double value =>
      simp only [numberText]
      split
      · rename_i finite
        intro empty
        have nothing := some.inj empty
        rcases doubles.fractional value finite with point | exponent
        · rw [nothing] at point
          cases point
        · rw [nothing] at exponent
          cases exponent
      · exact fun none => (nomatch none)
    | unsigned number => simp [numberText, decimal, Nat.toDigits_ne_nil]
  · intro value shown isText byte member
    cases value with
    | double value =>
      simp only [numberText, Option.ite_none_right_eq_some, some.injEq] at isText
      obtain ⟨finite, rfl⟩ := isText
      exact doubles.bytes value finite byte member
    | unsigned number =>
      cases isText
      have bounds := decimal_bytes number byte member
      have digit : 48 ≤ byte ∧ byte ≤ 57 := by
        rw [UInt8.le_iff_toNat_le, UInt8.le_iff_toNat_le]
        exact bounds
      simp [Json.isNumberByte, digit]
  · intro left right shown first second
    cases left with
    | double left =>
      simp only [numberText, Option.ite_none_right_eq_some, some.injEq] at first
      obtain ⟨finite, rfl⟩ := first
      cases right with
      | double right =>
        simp only [numberText, Option.ite_none_right_eq_some, some.injEq] at second
        rw [doubles.injective left right finite second.1 second.2.symm]
      | unsigned right => exact absurd (some.inj second).symm (noInteger _ _ finite)
    | unsigned left =>
      cases first
      cases right with
      | double right =>
        simp only [numberText, Option.ite_none_right_eq_some, some.injEq] at second
        exact absurd second.2 (noInteger _ _ second.1)
      | unsigned right => rw [decimal_injective (some.inj second)]

/-- A JSON value of the program. -/
abbrev JsonValue := Json JsonNumber

/-- A field of a JSON object, if it is one and has it. -/
def jsonField (json : JsonValue) (key : String) : Option JsonValue :=
  match json with
  | .object fields => SortedMap.find (lit key) fields
  | _ => none

inductive ObjectType where
  | file
  | executable
  | tree
  | symlink
deriving DecidableEq

def ObjectType.toChar : ObjectType → UInt8
  | .file => 102
  | .executable => 120
  | .tree => 116
  | .symlink => 108

/-- `FromChar` — a file by default. -/
def ObjectType.fromChar (byte : UInt8) : ObjectType :=
  if byte = 120 then .executable
  else if byte = 116 then .tree
  else if byte = 108 then .symlink
  else .file

/-- `HashFunction::Type`. -/
inductive HashType where
  | gitSHA1
  | plainSHA256
deriving DecidableEq

/-- `Hasher::GetHashLength` — the number of hexadecimal digits of a hash. -/
def HashType.hashLength : HashType → Nat
  | .gitSHA1 => 40
  | .plainSHA256 => 64

def isHexString (text : Str) : Bool := text.all fun byte => (hexDigit byte).isSome

def toHexString (bytes : Str) : Str :=
  bytes.flatMap fun byte =>
    [JsonString.hexDigit (byte.toNat / 16), JsonString.hexDigit (byte.toNat % 16)]

theorem toHexString_injective {left right : Str} (same : toHexString left = toHexString right) :
    left = right := by
  have digits : ∀ byte : UInt8, (JsonString.hexValue (JsonString.hexDigit (byte.toNat / 16)),
      JsonString.hexValue (JsonString.hexDigit (byte.toNat % 16))) =
        (some (byte.toNat / 16), some (byte.toNat % 16)) := forall_byte (by decide +kernel)
  induction left generalizing right with
  | nil =>
    cases right with
    | nil => rfl
    | cons byte rest => cases same
  | cons byte rest ih =>
    cases right with
    | nil => cases same
    | cons byte' rest' =>
      obtain ⟨high, tail⟩ := cons.inj same
      obtain ⟨low, tail⟩ := cons.inj tail
      have first := digits byte
      rw [high, low, digits byte'] at first
      have parts := Prod.mk.inj first
      have bytes : byte = byte' := by
        have highs := some.inj parts.1
        have lows := some.inj parts.2
        exact UInt8.toNat_inj.mp (by omega)
      rw [bytes, ih tail]

inductive ArtifactDescription where
  | localFile (path repository : Str)
  | known (hash : Str) (size : Nat) (fileType : ObjectType)
  | action (actionId path : Str)
  | tree (treeId : Str)
  | treeOverlay (treeOverlayId : Str)
deriving DecidableEq

namespace ArtifactDescription

def isKnown : ArtifactDescription → Bool
  | known .. => true
  | _ => false

/-- The JSON of a description of some type. -/
def describe (type : String) (data : List (Str × JsonValue)) : JsonValue :=
  .object [(lit "data", .object data), (lit "type", .string (lit type))]

def toJson : ArtifactDescription → JsonValue
  | localFile path repository =>
    describe "LOCAL" [(lit "path", .string path), (lit "repository", .string repository)]
  | known hash size fileType =>
    describe "KNOWN" [(lit "file_type", .string [fileType.toChar]), (lit "id", .string hash),
      (lit "size", .number (.unsigned size))]
  | action actionId path =>
    describe "ACTION" [(lit "id", .string actionId), (lit "path", .string path)]
  | tree treeId => describe "TREE" [(lit "id", .string treeId)]
  | treeOverlay treeOverlayId => describe "TREE_OVERLAY" [(lit "id", .string treeOverlayId)]

/-- `ExtractValueAs<std::string>`. -/
def extractString (json : JsonValue) (key : String) : Option Str :=
  match jsonField json key with
  | some (.string value) => some value
  | _ => none

/-- The conversion of a double to an unsigned integer, where it is defined. -/
def truncate (value : Double) : Nat :=
  match value.unpack with
  | .finite .positive mantissa exponent _ =>
    mantissa * 2 ^ exponent.toNat / 2 ^ (-exponent).toNat
  | _ => 0

/-- `ExtractValueAs<std::size_t>`. -/
def extractSize (json : JsonValue) (key : String) : Option Nat :=
  match jsonField json key with
  | some (.number (.unsigned value)) => some value
  | some (.number (.double value)) => some (truncate value)
  | some (.bool value) => some value.toNat
  | _ => none

/-- `ArtifactDigestFactory::Create` — whether a text can be the hash of a digest. -/
def isDigest (hashType : HashType) (hash : Str) : Bool :=
  decide (hash.length = hashType.hashLength) && isHexString hash

def fromJson (hashType : HashType) (json : JsonValue) : Option ArtifactDescription := do
  let type ← extractString json "type"
  let data ← jsonField json "data"
  if type = lit "LOCAL" then
    some (localFile (← extractString data "path") (← extractString data "repository"))
  else if type = lit "KNOWN" then
    let hash ← extractString data "id"
    let size ← extractSize data "size"
    match ← extractString data "file_type" with
    | [byte] => if isDigest hashType hash then some (known hash size (.fromChar byte)) else none
    | _ => none
  else if type = lit "ACTION" then
    some (action (← extractString data "id") (← extractString data "path"))
  else if type = lit "TREE" then some (tree (← extractString data "id"))
  else if type = lit "TREE_OVERLAY" then some (treeOverlay (← extractString data "id"))
  else none

/-- A description of an artifact with digests of the hash type. -/
def HasType (hashType : HashType) : ArtifactDescription → Prop
  | known hash _ _ => isDigest hashType hash = true
  | _ => True

theorem fromChar_toChar (type : ObjectType) : ObjectType.fromChar type.toChar = type := by
  cases type <;> rfl

theorem toChar_inj {left right : ObjectType} : left.toChar = right.toChar ↔ left = right := by
  constructor
  · intro same
    rw [← fromChar_toChar left, same, fromChar_toChar]
  · intro same
    rw [same]

theorem fromJson_toJson {hashType : HashType} {artifact : ArtifactDescription}
    (digests : artifact.HasType hashType) : fromJson hashType artifact.toJson = some artifact := by
  cases artifact with
  | known hash size fileType =>
    have valid : isDigest hashType hash = true := digests
    have read : fromJson hashType (known hash size fileType).toJson =
        if isDigest hashType hash then some (known hash size (.fromChar fileType.toChar))
        else none := rfl
    rw [read, if_pos valid, fromChar_toChar]
  | _ => rfl

theorem shown_toJson (doubleText : Double → Str) (artifact : ArtifactDescription) :
    Json.shown (numberText doubleText) artifact.toJson = artifact.toJson := by
  cases artifact <;> rfl

theorem toJson_injective {left right : ArtifactDescription} (same : left.toJson = right.toJson) :
    left = right := by
  have fields : ∀ {type type' : String} {data data' : List (Str × JsonValue)},
      describe type data = describe type' data' → data = data' ∧ type = type' := by
    intro type type' data data' same
    simpa [describe, lit_inj] using same
  cases left <;> cases right <;> obtain ⟨data, type⟩ := fields same <;>
    first
    | exact absurd type (by decide)
    | simp_all [toChar_inj]

end ArtifactDescription

end Jst
