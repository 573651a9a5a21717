import Jst.Data.SortedMap
import Jst.Expression.Expression
/-!
# Target results as JSON

A target result is cached as JSON. Its provided values are written into a table, one entry for each
hash of an expression, in which the parts of an entry are named by their hashes. Artifacts that are
not known yet can be replaced on the way.
-/
namespace Jst.Expression

open Number SortedMap

structure TargetResult where
  artifactStage : Expr
  provides : Expr
  runfiles : Expr
  isCacheable : Bool

/-- `TargetResult` with its default flag. -/
def TargetResult.make (artifactStage provides runfiles : Expr) : TargetResult :=
  ⟨artifactStage, provides, runfiles, provides.isCacheable⟩

/-- `Artifact::ObjectInfo` — the digest and the type of an artifact. -/
structure ObjectInfo where
  hash : Str
  size : Nat
  type : ObjectType

/-- What artifacts are to be replaced by. -/
abbrev Replacements := List (ArtifactDescription × ObjectInfo)

/-- Why there is no JSON: an exception, or the end of the program. -/
inductive Failure where
  | exception
  | terminated
deriving DecidableEq

/-- What is collected while expressions are written: the entries, the latest one first, and the
hashes of artifacts, nodes and results. -/
structure Tables where
  nodes : List (Str × JsonValue)
  artifacts : List Str
  targetNodes : List Str
  results : List Str

namespace TargetResult

section Serialize

variable (doubleText : Double → Str) (sha : Str → Str) (replacements : Replacements)

/-- What is computed without an exception, unless the program ends. -/
def orTerminate {Value : Type} : Option Value → Except Failure Value
  | some value => .ok value
  | none => .error .terminated

def serializeArtifactDescription (expr : Expr) : Except Failure JsonValue :=
  if replacements.isEmpty then orTerminate (expr.toJson doubleText sha .serializeAll)
  else
    match expr with
    | .artifact artifact =>
      if artifact.isKnown then .ok artifact.toJson
      else
        match replacements.lookup artifact with
        | some info => .ok (ArtifactDescription.known info.hash info.size info.type).toJson
        | none => .error .exception
    | _ => .error .exception

/-- Write an expression if its hash is not in the table yet. -/
def writeOnce (expr : Expr) (write : Str → Tables → Except Failure (JsonValue × Tables))
    (tables : Tables) : Except Failure (Str × Tables) := do
  let id ← orTerminate (expr.toIdentifier doubleText sha)
  if (find id tables.nodes).isSome then .ok (id, tables)
  else
    let (json, tables) ← write id tables
    .ok (id, { tables with nodes := (id, json) :: tables.nodes })

mutual
def serializeExpression : Expr → Tables → Except Failure (Str × Tables)
  | .map fields, tables =>
    writeOnce doubleText sha (.map fields) (fun _ tables => do
      let (hashes, tables) ← serializeFields fields tables
      .ok (.object hashes, tables)) tables
  | .list items, tables =>
    writeOnce doubleText sha (.list items) (fun _ tables => do
      let (hashes, tables) ← serializeItems items tables
      .ok (.array hashes, tables)) tables
  | .valueNode value, tables =>
    writeOnce doubleText sha (.valueNode value) (fun id tables => do
      let tables := { tables with targetNodes := tables.targetNodes ++ [id] }
      let (hash, tables) ← serializeExpression value tables
      .ok (.object [(lit "result", .string hash), (lit "type", .string (lit "VALUE_NODE"))],
        tables)) tables
  | .abstractNode nodeType stringFields targetFields, tables =>
    writeOnce doubleText sha (.abstractNode nodeType stringFields targetFields) (fun id tables => do
      let tables := { tables with targetNodes := tables.targetNodes ++ [id] }
      let (strings, tables) ← serializeExpression stringFields tables
      let (targets, tables) ← serializeExpression targetFields tables
      .ok (.object [(lit "node_type", .string nodeType), (lit "string_fields", .string strings),
        (lit "target_fields", .string targets), (lit "type", .string (lit "ABSTRACT_NODE"))],
        tables)) tables
  | .result artifactStage provides runfiles flag, tables =>
    writeOnce doubleText sha (.result artifactStage provides runfiles flag) (fun id tables => do
      let tables := { tables with results := tables.results ++ [id] }
      let (stage, tables) ← serializeExpression artifactStage tables
      let (run, tables) ← serializeExpression runfiles tables
      let (given, tables) ← serializeExpression provides tables
      .ok (.object [(lit "artifact_stage", .string stage), (lit "provides", .string given),
        (lit "runfiles", .string run)], tables)) tables
  | .artifact artifact, tables =>
    writeOnce doubleText sha (.artifact artifact) (fun id tables => do
      let tables := { tables with artifacts := tables.artifacts ++ [id] }
      let json ← serializeArtifactDescription doubleText sha replacements (.artifact artifact)
      .ok (json, tables)) tables
  | expr, tables =>
    writeOnce doubleText sha expr (fun _ tables => do
      let json ← orTerminate (expr.toJson doubleText sha .serializeAll)
      .ok (json, tables)) tables

/-- `SerializeExpression` of the items of a list. -/
def serializeItems : List Expr → Tables → Except Failure (List JsonValue × Tables)
  | [], tables => .ok ([], tables)
  | item :: rest, tables => do
    let (hash, tables) ← serializeExpression item tables
    let (hashes, tables) ← serializeItems rest tables
    .ok (.string hash :: hashes, tables)

/-- `SerializeExpression` of the values of a map. -/
def serializeFields : List (Str × Expr) → Tables → Except Failure (List (Str × JsonValue) × Tables)
  | [], tables => .ok ([], tables)
  | (key, value) :: rest, tables => do
    let (hash, tables) ← serializeExpression value tables
    let (hashes, tables) ← serializeFields rest tables
    .ok ((key, .string hash) :: hashes, tables)
end

/-- The artifacts of a map, one by one. -/
def serializeArtifacts : List (Str × Expr) → Except Failure (List (Str × JsonValue))
  | [] => .ok []
  | (key, value) :: rest => do
    let json ← serializeArtifactDescription doubleText sha replacements value
    let more ← serializeArtifacts rest
    .ok ((key, json) :: more)

def serializeArtifactMap (expr : Expr) : Except Failure JsonValue :=
  if replacements.isEmpty then orTerminate (expr.toJson doubleText sha .serializeAll)
  else
    match expr with
    | .map fields => do
      let artifacts ← serializeArtifacts doubleText sha replacements fields
      .ok (.object artifacts)
    | _ => .error .exception

/-- A list of strings as JSON. -/
def jsonStrings (strings : List Str) : JsonValue := .array (strings.map .string)

def serializeProvidesMap (expr : Expr) : Except Failure JsonValue := do
  let (entry, tables) ← serializeExpression doubleText sha replacements expr ⟨[], [], [], []⟩
  .ok (.object [(lit "entry", .string entry), (lit "nodes", .object (emplaceAll tables.nodes [])),
    (lit "provided_artifacts", jsonStrings tables.artifacts),
    (lit "provided_nodes", jsonStrings tables.targetNodes),
    (lit "provided_results", jsonStrings tables.results)])

/-- `SerializeTargetResultWithReplacement`. -/
def serialize (result : TargetResult) : Except Failure JsonValue := do
  let artifacts ← serializeArtifactMap doubleText sha replacements result.artifactStage
  let runfiles ← serializeArtifactMap doubleText sha replacements result.runfiles
  let provides ← serializeProvidesMap doubleText sha replacements result.provides
  .ok (.object [(lit "artifacts", artifacts), (lit "provides", provides),
    (lit "runfiles", runfiles)])

def toJson (result : TargetResult) : Except Failure JsonValue := serialize doubleText sha [] result

/-- `TargetResult::ReplaceNonKnownAndToJson` — nothing in place of an exception. The outer `none` is
the end of the program. -/
def replaceNonKnownAndToJson (result : TargetResult) : Option (Option JsonValue) :=
  match serialize doubleText sha replacements result with
  | .ok json => some (some json)
  | .error .exception => some none
  | .error .terminated => none

/-- `TargetResult::operator==`. -/
def equal (left right : TargetResult) : Prop :=
  left.artifactStage.toHash doubleText sha = right.artifactStage.toHash doubleText sha ∧
    left.provides.toHash doubleText sha = right.provides.toHash doubleText sha ∧
    left.runfiles.toHash doubleText sha = right.runfiles.toHash doubleText sha

end Serialize

/-- Why nothing is read: an exception, or entries that contain each other. -/
inductive ReadFailure where
  | exception
  | depth
deriving DecidableEq

/-- What is read without an exception. -/
def orThrow {Value : Type} : Option Value → Except ReadFailure Value
  | some value => .ok value
  | none => .error .exception

/-- The string that a JSON value is; any other one is an exception. -/
def asString : JsonValue → Except ReadFailure Str
  | .string value => .ok value
  | _ => .error .exception

def jsonSet : JsonValue → Except ReadFailure (List Str)
  | .array items => items.mapM asString
  | _ => .error .exception

/-- `Expression::FromJson` of a value that is no array or object. -/
def fromJsonLeaf : JsonValue → Expr
  | .bool value => .bool value
  | .number (.double value) => .number value
  | .number (.unsigned value) => .number (.ofNat value)
  | .string value => .string value
  | _ => .none

/-- The table that expressions are read from. -/
structure Table where
  nodes : List (Str × JsonValue)
  artifacts : List Str
  targetNodes : List Str
  results : List Str

/-- The expressions read so far, by their hashes in the table. -/
abbrev Sofar := List (Str × Expr)

section Deserialize

variable (hashType : HashType) (table : Table)

/-- Read the parts of a list or map in order, unless one is null. -/
def readAll {Entry Value : Type}
    (read : Entry → Sofar → Except ReadFailure (Option Value × Sofar)) :
    List Entry → Sofar → Except ReadFailure (Option (List Value) × Sofar)
  | [], sofar => .ok (some [], sofar)
  | entry :: rest, sofar => do
    match ← read entry sofar with
    | (none, sofar) => .ok (none, sofar)
    | (some value, sofar) =>
      match ← readAll read rest sofar with
      | (none, sofar) => .ok (none, sofar)
      | (some values, sofar) => .ok (some (value :: values), sofar)

/-- Read a part of a node, which has none that is null. -/
def readPart (read : JsonValue → Sofar → Except ReadFailure (Option Expr × Sofar))
    (json : JsonValue) (key : String) (sofar : Sofar) : Except ReadFailure (Expr × Sofar) := do
  match ← read (← orThrow (jsonField json key)) sofar with
  | (some value, sofar) => .ok (value, sofar)
  | (none, _) => .error .exception

/-- The `provided_nodes` branch of `DeserializeExpression`. -/
def readNode (read : JsonValue → Sofar → Except ReadFailure (Option Expr × Sofar))
    (id : Str) (json : JsonValue) (sofar : Sofar) :
    Except ReadFailure (Option Expr × Sofar) := do
  let type ← asString (← orThrow (jsonField json "type"))
  if type = lit "ABSTRACT_NODE" then
    let nodeType ← asString (← orThrow (jsonField json "node_type"))
    let (targetFields, sofar) ← readPart read json "target_fields" sofar
    let (stringFields, sofar) ← readPart read json "string_fields" sofar
    let result := Expr.abstractNode nodeType stringFields targetFields
    .ok (some result, sofar ++ [(id, result)])
  else if type = lit "VALUE_NODE" then
    let (value, sofar) ← readPart read json "result" sofar
    .ok (some (.valueNode value), sofar ++ [(id, .valueNode value)])
  else .ok (none, sofar)

/-- The `provided_results` branch of `DeserializeExpression`. -/
def readResult (read : JsonValue → Sofar → Except ReadFailure (Option Expr × Sofar))
    (json : JsonValue) (sofar : Sofar) : Except ReadFailure (Option Expr × Sofar) := do
  let (stage, sofar) ← read (← orThrow (jsonField json "artifact_stage")) sofar
  let (run, sofar) ← read (← orThrow (jsonField json "runfiles")) sofar
  let (given, sofar) ← read (← orThrow (jsonField json "provides")) sofar
  match stage, run, given with
  | some stage, some run, some given => .ok (some (.result stage given run true), sofar)
  | _, _, _ => .ok (none, sofar)

/-- `DeserializeExpression`, with a bound on how deeply entries contain each other. `none` is the
null pointer. -/
def deserializeExpression : Nat → JsonValue → Sofar → Except ReadFailure (Option Expr × Sofar)
  | 0, _, _ => .error .depth
  | depth + 1, entry, sofar => do
    let id ← asString entry
    match find id sofar with
    | some value => .ok (some value, sofar)
    | none =>
      match ← orThrow (find id table.nodes) with
      | .object fields =>
        if id ∈ table.artifacts then
          match ArtifactDescription.fromJson hashType (.object fields) with
          | some artifact => .ok (some (.artifact artifact), sofar ++ [(id, .artifact artifact)])
          | none => .ok (none, sofar)
        else if id ∈ table.targetNodes then
          readNode (deserializeExpression depth) id (.object fields) sofar
        else if id ∈ table.results then
          readResult (deserializeExpression depth) (.object fields) sofar
        else
          match ← readAll (fun (key, value) sofar => do
              let (value, sofar) ← deserializeExpression depth value sofar
              .ok (value.map (key, ·), sofar)) fields sofar with
          | (some fields, sofar) => .ok (some (.map fields), sofar ++ [(id, .map fields)])
          | (none, sofar) => .ok (none, sofar)
      | .array items =>
        match ← readAll (deserializeExpression depth) items sofar with
        | (some items, sofar) => .ok (some (.list items), sofar ++ [(id, .list items)])
        | (none, sofar) => .ok (none, sofar)
      | json => .ok (some (fromJsonLeaf json), sofar ++ [(id, fromJsonLeaf json)])

end Deserialize

def deserializeArtifactMap (hashType : HashType) : JsonValue → Option Expr
  | .object fields => do
    let artifacts ← fields.mapM fun (key, json) => do
      some (key, Expr.artifact (← ArtifactDescription.fromJson hashType json))
    some (.map artifacts)
  | _ => none

/-- `DeserializeProvidesMap`; no entry is deeper than there are entries, unless they contain each
other. -/
def deserializeProvidesMap (hashType : HashType) (json : JsonValue) :
    Except ReadFailure (Option Expr) := do
  match ← orThrow (jsonField json "nodes") with
  | .object nodes =>
    let artifacts ← jsonSet (← orThrow (jsonField json "provided_artifacts"))
    let targetNodes ← jsonSet (← orThrow (jsonField json "provided_nodes"))
    let results ← jsonSet (← orThrow (jsonField json "provided_results"))
    let entry ← orThrow (jsonField json "entry")
    let (value, _) ← deserializeExpression hashType ⟨nodes, artifacts, targetNodes, results⟩
      (nodes.length + 1) entry []
    .ok value
  | _ => .error .exception

def fromJson (hashType : HashType) (json : JsonValue) : Option TargetResult := do
  let artifacts ← deserializeArtifactMap hashType (← jsonField json "artifacts")
  let runfiles ← deserializeArtifactMap hashType (← jsonField json "runfiles")
  let provides ← (← (deserializeProvidesMap hashType (← jsonField json "provides")).toOption)
  some (.make artifacts provides runfiles)

end TargetResult

end Jst.Expression
