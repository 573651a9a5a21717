import Jst.Common.ActionDescription
/-!
# Action graphs

The JSON of actions, trees and tree overlays, and how they are read from it. Fields with default
values are not written. Identifiers are not part of the JSON: those of trees and overlays are hashes
of it, and all are given to the reader. Exceptions of a reader are `none`.
-/
namespace Jst

open Number SortedMap

namespace ActionGraph

/-! ## Reading -/

/-- `get<std::string>`. -/
def getString : JsonValue → Option Str
  | .string value => some value
  | _ => none

/-- `get<std::vector<std::string>>`. -/
def getStrings : JsonValue → Option (List Str)
  | .array items => items.mapM getString
  | _ => none

/-- The entries over which `items()` goes: an array has its positions as keys, and any other value
is its only entry. -/
def items : JsonValue → List (Str × JsonValue)
  | .object fields => fields
  | .array values => values.zipIdx.map fun (value, position) => (decimal position, value)
  | .null => []
  | value => [([], value)]

/-- The conversion of an object to a map of strings. -/
def getStringMap : JsonValue → Option (List (Str × Str))
  | .object fields => fields.mapM fun (key, value) => (getString value).map (key, ·)
  | _ => none

/-- `get<double>`. -/
def getDouble : JsonValue → Option Double
  | .number (.double value) => some value
  | .number (.unsigned value) => some (.ofNat value)
  | _ => none

/-- The loop that reads inputs; `emplace` keeps the first entry with a path. -/
def readInputs (hashType : HashType) (fields : List (Str × JsonValue)) :
    Option (List (Str × ArtifactDescription)) :=
  (fields.mapM fun field =>
    (ArtifactDescription.fromJson hashType field.2).map (field.1, ·)).map fun inputs =>
      emplaceAll inputs []

/-! ## Actions -/

/-- The JSON of inputs by their paths. -/
def inputsToJson (inputs : List (Str × ArtifactDescription)) : JsonValue :=
  .object (inputs.foldl (fun json (path, artifact) => insert path artifact.toJson json) [])

/-- The JSON of a list of strings. -/
def stringsToJson (strings : List Str) : JsonValue := .array (strings.map .string)

/-- The JSON of a map of strings. -/
def stringMapToJson (strings : List (Str × Str)) : JsonValue :=
  .object (strings.map fun (key, value) => (key, .string value))

/-- Write a field unless it has its default. -/
def writeUnless (default : Bool) (key : String) (value : JsonValue)
    (json : List (Str × JsonValue)) : List (Str × JsonValue) :=
  if default then json else insert (lit key) value json

end ActionGraph

namespace ActionDescription

open ActionGraph

/-- The fields of `ActionDescription::ToJson`. -/
def toFields (description : ActionDescription) : List (Str × JsonValue) :=
  let action := description.action
  let json := [(lit "command", stringsToJson action.command)]
  let json := writeUnless description.outputFiles.isEmpty "output"
    (stringsToJson description.outputFiles) json
  let json := writeUnless description.outputDirs.isEmpty "output_dirs"
    (stringsToJson description.outputDirs) json
  let json := writeUnless description.inputs.isEmpty "input" (inputsToJson description.inputs) json
  let json := writeUnless action.env.isEmpty "env" (stringMapToJson action.env) json
  let json := writeUnless action.mayFail.isNone "may_fail" (.string (action.mayFail.getD [])) json
  let json := writeUnless (!action.noCache) "no_cache" (.bool true) json
  let json := writeUnless (action.timeoutScale = .ofNat 1) "timeout scaling"
    (.number (.double action.timeoutScale)) json
  let json := writeUnless action.cwd.isEmpty "cwd" (.string action.cwd) json
  writeUnless action.executionProperties.isEmpty "execution properties"
    (stringMapToJson action.executionProperties) json

def toJson (description : ActionDescription) : JsonValue := .object description.toFields

/-- `optional_key_value_reader`, for a map. -/
def readMap (desc : JsonValue) (key : String) : Option (List (Str × JsonValue)) :=
  match jsonField desc key with
  | none => some []
  | some (.object fields) => some fields
  | some _ => none

/-- A field that is a string if it is given. -/
def readText (desc : JsonValue) (key : String) : Option Str :=
  match jsonField desc key with
  | none => some []
  | some value => getString value

/-- The field `may_fail`. -/
def readMayFail (desc : JsonValue) : Option (Option Str) :=
  match jsonField desc "may_fail" with
  | none | some .null => some none
  | some value => (getString value).map some

/-- The field `no_cache`. -/
def readNoCache (desc : JsonValue) : Option Bool :=
  match jsonField desc "no_cache" with
  | none => some false
  | some (.bool value) => some value
  | some _ => none

/-- The field `timeout scaling`. -/
def readTimeoutScale (desc : JsonValue) : Option Double :=
  match jsonField desc "timeout scaling" with
  | none => some (.ofNat 1)
  | some value => getDouble value

def fromJson (hashType : HashType) (id : Str) (desc : JsonValue) : Option ActionDescription := do
  let outputs := ((jsonField desc "output").bind getStrings).getD []
  let outputDirs := ((jsonField desc "output_dirs").bind getStrings).getD []
  let command := ((jsonField desc "command").bind getStrings).getD []
  if outputs.isEmpty && outputDirs.isEmpty then none
  else if command.isEmpty then none
  else
    let label ← readText desc "label"
    let cwd ← readText desc "cwd"
    let input ← readMap desc "input"
    let env ← readMap desc "env"
    let inputs ← readInputs hashType input
    let mayFail ← readMayFail desc
    let noCache ← readNoCache desc
    let timeoutScale ← readTimeoutScale desc
    let executionProperties ← readMap desc "execution properties"
    some
      { outputFiles := outputs
        outputDirs := outputDirs
        action :=
          { id := id
            command := command
            label := label
            cwd := cwd
            env := ← getStringMap (.object env)
            mayFail := mayFail
            noCache := noCache
            timeoutScale := timeoutScale
            executionProperties := ← getStringMap (.object executionProperties) }
        inputs := inputs }

end ActionDescription

namespace ActionGraph

/-! ## Trees -/

/-- `Tree` with its inputs. -/
structure Tree where
  id : Str
  inputs : List (Str × ArtifactDescription)
deriving DecidableEq

structure TreeOverlay where
  id : Str
  trees : List ArtifactDescription
  disjoint : Bool
deriving DecidableEq

def Tree.toJson (tree : Tree) : JsonValue := inputsToJson tree.inputs

def Tree.fromJson (hashType : HashType) (id : Str) (json : JsonValue) : Option Tree :=
  (readInputs hashType (items json)).map fun inputs => ⟨id, inputs⟩

def TreeOverlay.toJson (overlay : TreeOverlay) : JsonValue :=
  .object [(lit "disjoint", .bool overlay.disjoint),
    (lit "trees", .array (overlay.trees.map ArtifactDescription.toJson))]

def TreeOverlay.fromJson (hashType : HashType) (id : Str) (json : JsonValue) : Option TreeOverlay :=
  match jsonField json "disjoint" with
  | some (.bool disjoint) => do
    let trees ← (items (← jsonField json "trees")).mapM fun (_, entry) =>
      ArtifactDescription.fromJson hashType entry
    some ⟨id, trees, disjoint⟩
  | _ => none

section Identifiers

-- how JSON writes doubles, and the hash function
variable (doubleText : Double → Str) (sha : Str → Str)

/-- The identifier of what has some JSON; there is none if a text in it is not UTF-8. -/
def computeId (mark : String) (json : JsonValue) : Option Str :=
  (json.dump (numberText doubleText)).map fun text => toHexString (sha (lit mark ++ text))

/-- The constructor of `Tree` with `Tree::ComputeId`. -/
def Tree.ofInputs (inputs : List (Str × ArtifactDescription)) : Option Tree :=
  (computeId doubleText sha "TREE:" (inputsToJson inputs)).map fun id => ⟨id, inputs⟩

/-- The constructor of `TreeOverlay` with `TreeOverlay::ComputeId`. -/
def TreeOverlay.ofTrees (trees : List ArtifactDescription) (disjoint : Bool) : Option TreeOverlay :=
  (computeId doubleText sha "TREE_OVERLAY:" (TreeOverlay.toJson ⟨[], trees, disjoint⟩)).map
    fun id => ⟨id, trees, disjoint⟩

end Identifiers

end ActionGraph

end Jst
