import Jst.Target.CreateAction
import Jst.Verif.ExpressionHash
/-!
# Action identifiers tell actions apart

Every part of what is hashed for an action ends where it shows: digests are no fronts of each other,
the flag is one byte, and the timeout scale is padded. So actions with one identifier agree in all
but their labels.
-/
namespace Jst.Verif.ActionIdentifiers

open Jst.Expression Jst.Expression.Expr Jst.Target ExpressionHash
open Jst.Number (Double)

/-- What is known of `{:+24a}`: it fills 24 bytes, and different numbers have different texts. -/
structure IsScaleText (scaleText : Double → Str) : Prop where
  padded : ∀ value, (scaleText value).length = 24
  injective : Function.Injective scaleText

section Parts

variable {doubleText scaleText : Double → Str} {sha : Str → Str}

theorem flatMap_inj (collisionFree : CollisionFree sha) {left right : List Str}
    (same : left.flatMap sha = right.flatMap sha) : left = right := by
  induction left generalizing right with
  | nil =>
    cases right with
    | nil => rfl
    | cons first rest =>
      rw [List.flatMap_nil, flatMap_cons] at same
      exact absurd (List.append_eq_nil_iff.mp same.symm).1 (digest_ne_nil collisionFree first)
  | cons first rest step =>
    cases right with
    | nil =>
      rw [List.flatMap_nil, flatMap_cons] at same
      exact absurd (List.append_eq_nil_iff.mp same).1 (digest_ne_nil collisionFree first)
    | cons other others =>
      rw [flatMap_cons, flatMap_cons] at same
      obtain ⟨sameFirst, sameRest⟩ := digest_append_inj collisionFree same
      rw [sameFirst, step sameRest]

variable {other rest : Str}

theorem hashVector_append_inj (collisionFree : CollisionFree sha) {left right : List Str}
    (same : hashVector sha left ++ rest = hashVector sha right ++ other) :
    left = right ∧ rest = other := by
  obtain ⟨texts, rests⟩ := digest_append_inj collisionFree same
  exact ⟨flatMap_inj collisionFree texts, rests⟩

theorem flag_append_inj {left right : Bool}
    (same : (if left then lit "N" else lit "Y") ++ rest =
      (if right then lit "N" else lit "Y") ++ other) : left = right ∧ rest = other := by
  have lengths : ∀ flag : Bool, (if flag then lit "N" else lit "Y").length = 1 := by decide
  obtain ⟨flags, rests⟩ := List.append_inj same ((lengths left).trans (lengths right).symm)
  refine ⟨?_, rests⟩
  cases left <;> cases right
  · rfl
  · exact absurd flags (by decide)
  · exact absurd flags (by decide)
  · rfl

theorem scale_append_inj (scales : IsScaleText scaleText) {left right : Double}
    (same : scaleText left ++ rest = scaleText right ++ other) : left = right ∧ rest = other := by
  obtain ⟨texts, rests⟩ := List.append_inj same ((scales.padded left).trans (scales.padded right).symm)
  exact ⟨scales.injective texts, rests⟩

theorem toList_inj {left right : Option Str} (same : left.toList = right.toList) : left = right := by
  cases left <;> cases right
  · rfl
  · cases same
  · cases same
  · exact congrArg some (cons.inj same).1

theorem entries_alike {Value : Type} {read : List (Str × Expr) → Option (List (Str × Value))}
    {readValue : Expr → Option Value} (readCons : ∀ key expr rest, read ((key, expr) :: rest) =
      (readValue expr).bind fun value => (read rest).map ((key, value) :: ·))
    (sameValue : ∀ {expr other value value'}, Alike doubleText sha expr other →
      readValue expr = some value → readValue other = some value' → value = value')
    {left right : List (Str × Expr)} {entries entries' : List (Str × Value)}
    (alike : AlikeFields doubleText sha left right) (found : read left = some entries)
    (found' : read right = some entries') : entries = entries' := by
  induction left generalizing right entries entries' with
  | nil =>
    cases right with
    | nil => exact some.inj (found.symm.trans found')
    | cons entry rest => exact alike.elim
  | cons entry rest step =>
    cases right with
    | nil => exact alike.elim
    | cons entry' rest' =>
      obtain ⟨key, expr⟩ := entry
      obtain ⟨key', expr'⟩ := entry'
      rw [AlikeFields] at alike
      obtain ⟨rfl, values, rests⟩ := alike
      rw [readCons] at found found'
      obtain ⟨value, isValue, found⟩ := bind_eq_some_iff.mp found
      obtain ⟨value', isValue', found'⟩ := bind_eq_some_iff.mp found'
      obtain ⟨more, foundMore, rfl⟩ := map_eq_some_iff.mp found
      obtain ⟨more', foundMore', rfl⟩ := map_eq_some_iff.mp found'
      rw [sameValue values isValue isValue', step rests foundMore foundMore']

def readText : Expr → Option Str
  | .string text => some text
  | _ => none

theorem stringEntries_alike {left right : List (Str × Expr)} {strings strings' : List (Str × Str)}
    (alike : AlikeFields doubleText sha left right) (read : stringEntries left = some strings)
    (read' : stringEntries right = some strings') : strings = strings' := by
  refine @entries_alike doubleText sha _ stringEntries readText ?_ ?_ _ _ _ _ alike read read'
  · intro key expr rest
    cases expr <;> rfl
  · intro expr other value value' values isValue isValue'
    cases expr with
    | string text =>
      cases other with
      | string text' =>
        cases isValue
        cases isValue'
        simpa [Alike, IsNullish] using values
      | _ => cases isValue'
    | _ => cases isValue

def readArtifact : Expr → Option ArtifactDescription
  | .artifact description => some description
  | _ => none

theorem artifactEntries_alike {left right : List (Str × Expr)}
    {artifacts artifacts' : List (Str × ArtifactDescription)}
    (alike : AlikeFields doubleText sha left right) (read : artifactEntries left = some artifacts)
    (read' : artifactEntries right = some artifacts') : artifacts = artifacts' := by
  refine @entries_alike doubleText sha _ artifactEntries readArtifact ?_ ?_ _ _ _ _ alike read
    read'
  · intro key expr rest
    cases expr <;> rfl
  · intro expr other value value' values isValue isValue'
    cases expr with
    | artifact description =>
      cases other with
      | artifact description' =>
        cases isValue
        cases isValue'
        simpa [Alike, IsNullish] using values
      | _ => cases isValue'
    | _ => cases isValue

end Parts

/-! ## Made actions -/

/-- What `createAction` is called with. -/
structure Request where
  outputFiles : List Str
  outputDirs : List Str
  command : List Str
  label : Str
  cwd : Str
  env : Expr
  mayFail : Option Str
  noCache : Bool
  timeoutScale : Double
  executionPropertiesExp : Expr
  inputsExp : Expr

/-- The action that is made for a request. -/
def Request.make (doubleText scaleText : Double → Str) (sha : Str → Str) (request : Request) :
    Option ActionDescription :=
  createAction doubleText scaleText sha request.outputFiles request.outputDirs request.command
    request.label request.cwd request.env request.mayFail request.noCache request.timeoutScale
    request.executionPropertiesExp request.inputsExp

section Made

variable {doubleText scaleText : Double → Str} {sha : Str → Str}

theorem make_eq_some {request : Request} {made : ActionDescription}
    (makes : request.make doubleText scaleText sha = some made) :
    ∃ env properties inputs envHash propertiesHash inputsHash envVars executionProperties artifacts,
      request.env = .map env ∧ request.executionPropertiesExp = .map properties ∧
      request.inputsExp = .map inputs ∧
      toHash doubleText sha (.map env) = some envHash ∧
      toHash doubleText sha (.map properties) = some propertiesHash ∧
      toHash doubleText sha (.map inputs) = some inputsHash ∧
      stringEntries env = some envVars ∧ stringEntries properties = some executionProperties ∧
      artifactEntries inputs = some artifacts ∧
      made =
        { outputFiles := request.outputFiles
          outputDirs := request.outputDirs
          action :=
            { id := toHexString (sha (lit "ACTION:" ++ identified scaleText sha request.outputFiles
                request.outputDirs request.command request.cwd envHash request.mayFail
                request.noCache request.timeoutScale propertiesHash inputsHash))
              command := request.command
              label := request.label
              cwd := request.cwd
              env := SortedMap.emplaceAll envVars []
              mayFail := request.mayFail
              noCache := request.noCache
              timeoutScale := request.timeoutScale
              executionProperties := SortedMap.emplaceAll executionProperties [] }
          inputs := SortedMap.emplaceAll artifacts [] } := by
  obtain ⟨outputFiles, outputDirs, command, label, cwd, env, mayFail, noCache, timeoutScale,
    properties, inputs⟩ := request
  have isMap : ∀ {expr : Expr} {fields}, mapEntries expr = some fields → expr = .map fields := by
    intro expr fields found
    cases expr with
    | map entries => exact congrArg Expr.map (some.inj found)
    | _ => cases found
  simp only [Request.make, createAction, bind_eq_bind, bind_eq_some_iff, some.injEq] at makes
  obtain ⟨envHash, envHashed, propertiesHash, propertiesHashed, inputsHash, inputsHashed, envFields,
    envMap, envVars, envRead, propertyFields, propertyMap, executionProperties, propertiesRead,
    inputFields, inputMap, artifacts, inputsRead, rfl⟩ := makes
  obtain rfl := isMap envMap
  obtain rfl := isMap propertyMap
  obtain rfl := isMap inputMap
  exact ⟨envFields, propertyFields, inputFields, envHash, propertiesHash, inputsHash, envVars,
    executionProperties, artifacts, rfl, rfl, rfl, envHashed, propertiesHashed, inputsHashed, envRead,
    propertiesRead, inputsRead, rfl⟩

theorem hash_append_inj (collisionFree : CollisionFree sha) (doubles : IsDoubleText doubleText)
    {left right : Expr} {hash hash' rest other : Str} (hashed : toHash doubleText sha left = some hash)
    (hashed' : toHash doubleText sha right = some hash') (same : hash ++ rest = hash' ++ other) :
    Alike doubleText sha left right ∧ rest = other := by
  obtain ⟨digests, rests⟩ := (hashes_append_inj collisionFree doubles hashed hashed').mp same
  exact ⟨(toHash_eq_iff collisionFree doubles left right hashed hashed').mp digests, rests⟩

/-- Actions with one identifier have the same outputs, command, working directory, environment,
message, flag, timeout scale, execution properties and inputs: they differ in their labels only. -/
theorem eq_of_id (collisionFree : CollisionFree sha) (doubles : IsDoubleText doubleText)
    (scales : IsScaleText scaleText) (request request' : Request) (left right : ActionDescription)
    (makes : request.make doubleText scaleText sha = some left)
    (makes' : request'.make doubleText scaleText sha = some right)
    (same : left.action.id = right.action.id) : left = right.withLabel left.action.label := by
  obtain ⟨env, properties, inputs, envHash, propertiesHash, inputsHash, envVars, executionProperties,
    artifacts, -, -, -, envHashed, propertiesHashed, inputsHashed, envRead, propertiesRead,
    inputsRead, rfl⟩ := make_eq_some makes
  obtain ⟨env', properties', inputs', envHash', propertiesHash', inputsHash', envVars',
    executionProperties', artifacts', -, -, -, envHashed', propertiesHashed', inputsHashed', envRead',
    propertiesRead', inputsRead', rfl⟩ := make_eq_some makes'
  simp only [toHexString_inj] at same
  have texts := collisionFree _ _ [] [] (congrArg (· ++ []) same)
  have parts := append_cancel_left texts
  unfold identified at parts
  -- The parts are split off from the front.
  obtain ⟨files, parts⟩ := hashVector_append_inj collisionFree parts
  obtain ⟨dirs, parts⟩ := hashVector_append_inj collisionFree parts
  obtain ⟨commands, parts⟩ := hashVector_append_inj collisionFree parts
  obtain ⟨cwds, parts⟩ := hashVector_append_inj collisionFree parts
  obtain ⟨envs, parts⟩ := hash_append_inj collisionFree doubles envHashed envHashed' parts
  obtain ⟨messages, parts⟩ := hashVector_append_inj collisionFree parts
  obtain ⟨flags, parts⟩ := flag_append_inj parts
  obtain ⟨timeouts, parts⟩ := scale_append_inj scales parts
  obtain ⟨props, parts⟩ := hash_append_inj collisionFree doubles propertiesHashed propertiesHashed' parts
  have ins := (toHash_eq_iff collisionFree doubles _ _ inputsHashed inputsHashed').mp parts
  rw [Alike] at envs props ins
  have environment := stringEntries_alike envs envRead envRead'
  have settings := stringEntries_alike props propertiesRead propertiesRead'
  have described := artifactEntries_alike ins inputsRead inputsRead'
  simp only [ActionDescription.withLabel, ActionDescription.mk.injEq, Action.mk.injEq, toHexString_inj]
  exact ⟨files, dirs, ⟨same, commands, trivial, (cons.inj cwds).1, by rw [environment],
    toList_inj messages, flags, timeouts, by rw [settings]⟩, by rw [described]⟩

end Made

/-! ## Two actions with one identifier -/

/-- The digest of the empty text. -/
def emptyDigest : Str :=
  [227, 176, 196, 66, 152, 252, 28, 20, 154, 251, 244, 200, 153, 111, 185, 36, 39, 174,
    65, 228, 100, 155, 147, 76, 164, 149, 153, 27, 120, 82, 184, 85]

/-- The digest of `o`. -/
def outputDigest : Str :=
  [101, 199, 76, 21, 166, 134, 24, 123, 182, 187, 249, 149, 143, 73, 79, 198, 184, 0,
    104, 3, 74, 101, 154, 154, 212, 73, 145, 176, 140, 88, 242, 210]

/-- The digest of the digest of `o`. -/
def outputsDigest : Str :=
  [198, 225, 48, 43, 18, 22, 91, 73, 67, 68, 144, 63, 154, 234, 159, 76, 63, 19,
    229, 67, 216, 85, 62, 109, 144, 55, 190, 54, 200, 147, 155, 190]

/-- The digest of `c`. -/
def argumentDigest : Str :=
  [46, 125, 44, 3, 169, 80, 122, 226, 101, 236, 245, 181, 53, 104, 133, 165, 51, 147,
    162, 2, 157, 36, 19, 148, 153, 114, 101, 161, 162, 90, 239, 198]

/-- The digest of the digest of `c`. -/
def commandDigest : Str :=
  [102, 50, 117, 61, 108, 163, 15, 234, 137, 15, 55, 252, 21, 14, 174, 216, 208, 104,
    172, 245, 150, 172, 178, 37, 27, 143, 175, 215, 45, 185, 119, 211]

/-- The digest of the digest of the empty text. -/
def cwdDigest : Str :=
  [93, 246, 224, 226, 118, 19, 89, 211, 10, 130, 117, 5, 142, 41, 159, 204, 3, 129,
    83, 69, 69, 245, 92, 244, 62, 65, 152, 63, 93, 76, 148, 86]

/-- The digest of an empty map. -/
def emptyMapDigest : Str :=
  [2, 31, 181, 150, 219, 129, 230, 208, 43, 243, 210, 88, 110, 227, 152, 31, 229, 25,
    242, 117, 192, 172, 156, 167, 107, 188, 242, 235, 180, 9, 125, 150]

/-- The digest of the action. -/
def actionDigest : Str :=
  [151, 46, 206, 171, 168, 50, 199, 26, 109, 81, 211, 190, 232, 228, 237, 153, 194, 155,
    55, 100, 245, 79, 167, 111, 48, 243, 118, 61, 184, 215, 112, 60]

/-- The text of one that `{:+24a}` makes. -/
def scaleOne : Str := lit "                 +0x1p+0"

/-- The number one. -/
def one : Double := Number.ofBinary 1 0

/-- The bytes of a number below two to the power of 64. -/
def lowBytes (number : Nat) : Str :=
  [UInt8.ofNat (number % 256), UInt8.ofNat (number / 256 % 256), UInt8.ofNat (number / 65536 % 256),
    UInt8.ofNat (number / 16777216 % 256), UInt8.ofNat (number / 4294967296 % 256),
    UInt8.ofNat (number / 1099511627776 % 256), UInt8.ofNat (number / 281474976710656 % 256),
    UInt8.ofNat (number / 72057594037927936 % 256)]

/-- A text of 24 bytes for each number. -/
def scaleBits (value : Double) : Str :=
  if value = one then scaleOne else replicate 16 33 ++ lowBytes value.toBits.toNat

theorem lowBytes_inj {left right : Nat} (small : left < 2 ^ 64) (small' : right < 2 ^ 64)
    (same : lowBytes left = lowBytes right) : left = right := by
  have digit : ∀ {a b : Nat}, UInt8.ofNat (a % 256) = UInt8.ofNat (b % 256) → a % 256 = b % 256 := by
    intro a b equal
    have values := congrArg UInt8.toNat equal
    rw [UInt8.toNat_ofNat', UInt8.toNat_ofNat'] at values
    omega
  simp only [lowBytes, List.cons.injEq, and_true] at same
  obtain ⟨b0, b1, b2, b3, b4, b5, b6, b7⟩ := same
  have d0 := digit b0
  have d1 := digit b1
  have d2 := digit b2
  have d3 := digit b3
  have d4 := digit b4
  have d5 := digit b5
  have d6 := digit b6
  have d7 := digit b7
  omega

theorem scaleBits_isScaleText : IsScaleText scaleBits := by
  constructor
  · intro value
    unfold scaleBits
    split
    · decide
    · rfl
  · intro left right same
    have apart : ∀ rest, scaleOne ≠ replicate 16 33 ++ rest := fun rest equal =>
      absurd (cons.inj equal).1 (by decide)
    unfold scaleBits at same
    split at same
    · next isOne =>
      split at same
      · next isOne' => exact isOne.trans isOne'.symm
      · exact absurd same (apart _)
    · split at same
      · exact absurd same.symm (apart _)
      · have bits := lowBytes_inj left.toBits.toNat_lt right.toBits.toNat_lt
          (append_cancel_left same)
        obtain ⟨bitsLeft, _⟩ := left
        obtain ⟨bitsRight, _⟩ := right
        obtain rfl := UInt64.toNat_inj.mp bits
        rfl

/-- What is hashed for an action with the output `o` and the command `c`. -/
def actionText : Str :=
  lit "ACTION:" ++ (outputsDigest ++ (emptyDigest ++ (commandDigest ++ (cwdDigest ++
    (emptyMapDigest ++ (emptyDigest ++ (lit "Y" ++ (scaleOne ++
      (emptyMapDigest ++ emptyMapDigest)))))))))

/-- The digests that occur in making the action. -/
def actionDigests : List (Str × Str) :=
  [([], emptyDigest), (lit "o", outputDigest), (outputDigest, outputsDigest),
    (lit "c", argumentDigest), (argumentDigest, commandDigest), (emptyDigest, cwdDigest),
    (lit "\x7b", emptyMapDigest), (actionText, actionDigest)]

/-- A request for the action under a label. -/
def labelled (label : Str) : Request :=
  ⟨[lit "o"], [], [lit "c"], label, [], .map [], none, false, one, .map [], .map []⟩

/-- The action under a label. -/
def labelledAction (label : Str) : ActionDescription :=
  ⟨[lit "o"], [], ⟨toHexString actionDigest, [lit "c"], label, [], [], none, false, one, []⟩, []⟩

theorem eq_of_id_labelled :
    labelledAction (lit "first") = (labelledAction (lit "second")).withLabel (lit "first") :=
  eq_of_id (digestsOf_collisionFree (by decide +kernel : IsTable actionDigests)) bitsText_isDoubleText
    scaleBits_isScaleText (labelled (lit "first")) (labelled (lit "second")) _ _
    (by decide +kernel) (by decide +kernel) rfl

end Jst.Verif.ActionIdentifiers
