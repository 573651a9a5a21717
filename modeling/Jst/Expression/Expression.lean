import Jst.Common.ArtifactDescription
/-!
# Expressions with the values of targets

An `Expression` with its names, artifacts, results and nodes in full, of which `Value` keeps the
JSON only. The JSON and the hash of an expression depend on each other: a node is shown by its hash
where nodes are not written out, and all but lists and maps are hashed by their JSON. Both are
computed in one pass over the expression.
-/
namespace Jst.Expression

open Number

inductive ReferenceType where
  | target
  | file
  | tree
  | glob
  | symlink
deriving DecidableEq

structure NamedTarget where
  repository : Str
  module : Str
  name : Str
  referenceType : ReferenceType
deriving DecidableEq

/-- `Expression`; a name is a named or an anonymous target, and a node a value or an abstract one.
-/
inductive Expr where
  | none
  | bool (value : Bool)
  | number (value : Double)
  | string (value : Str)
  | namedTarget (name : NamedTarget)
  | anonymousTarget (ruleMap targetNode : Expr)
  | artifact (value : ArtifactDescription)
  | result (artifactStage provides runfiles : Expr) (isCacheable : Bool)
  | valueNode (value : Expr)
  | abstractNode (nodeType : Str) (stringFields targetFields : Expr)
  | list (items : List Expr)
  | map (fields : List (Str × Expr))

/-- What a reference to anything but a target is marked with. -/
def ReferenceType.marker : ReferenceType → Option String
  | .target => none
  | .file => some "FILE"
  | .tree => some "TREE"
  | .glob => some "GLOB"
  | .symlink => some "SYMLINK"

/-- `EntityName::ToJson` of a named target. -/
def NamedTarget.toJson (name : NamedTarget) : JsonValue :=
  .array (.string (lit "@") :: .string name.repository ::
    (name.referenceType.marker.toList.map fun marker => .string (lit marker)) ++
    [.string name.module, .string name.name])

/-- `Expression::JsonMode` — whether nodes are written out. -/
inductive JsonMode where
  | serializeAll
  | serializeAllButNodes
deriving DecidableEq

namespace Expr

mutual
def isCacheable : Expr → Bool
  | namedTarget _ | anonymousTarget _ _ => false
  | result _ _ _ cacheable => cacheable
  | valueNode value => isCacheable value
  | abstractNode _ _ targetFields => isCacheable targetFields
  | list items => isCacheableItems items
  | map fields => isCacheableFields fields
  | _ => true

/-- `Expression::IsCacheable` on the items of a list. -/
def isCacheableItems : List Expr → Bool
  | [] => true
  | item :: rest => isCacheable item && isCacheableItems rest

/-- `Expression::IsCacheable` on the entries of a map. -/
def isCacheableFields : List (Str × Expr) → Bool
  | [] => true
  | (_, value) :: rest => isCacheable value && isCacheableFields rest
end

mutual
/-- An expression without the flags of its results, which are never compared. -/
def unflagged : Expr → Expr
  | anonymousTarget ruleMap targetNode =>
    anonymousTarget (unflagged ruleMap) (unflagged targetNode)
  | result artifactStage provides runfiles _ =>
    result (unflagged artifactStage) (unflagged provides) (unflagged runfiles) true
  | valueNode value => valueNode (unflagged value)
  | abstractNode nodeType stringFields targetFields =>
    abstractNode nodeType (unflagged stringFields) (unflagged targetFields)
  | list items => list (unflaggedItems items)
  | map fields => map (unflaggedFields fields)
  | value => value

/-- The items of a list without flags. -/
def unflaggedItems : List Expr → List Expr
  | [] => []
  | item :: rest => unflagged item :: unflaggedItems rest

/-- The entries of a map without flags. -/
def unflaggedFields : List (Str × Expr) → List (Str × Expr)
  | [] => []
  | (key, value) :: rest => (key, unflagged value) :: unflaggedFields rest
end

/-- Two expressions are structurally equal. -/
def Same (left right : Expr) : Prop := left.unflagged = right.unflagged

/-- What is computed of an expression: its JSON in both modes and its hash. A text that is not UTF-8
has no JSON text, and the program ends where it would be hashed. -/
structure View where
  all : Option JsonValue
  allButNodes : Option JsonValue
  hash : Option Str

/-- The views of the entries of a list or map, with their hashes one behind the other. -/
structure Views (Entry : Type) where
  all : Option (List Entry)
  allButNodes : Option (List Entry)
  hash : Option Str

/-- The JSON of the entries in a mode. -/
def Views.json {Entry : Type} (views : Views Entry) : JsonMode → Option (List Entry)
  | .serializeAll => views.all
  | .serializeAllButNodes => views.allButNodes

/-- The JSON in a mode. -/
def View.json (view : View) : JsonMode → Option JsonValue
  | .serializeAll => view.all
  | .serializeAllButNodes => view.allButNodes

section Hash

-- how doubles are written, and the hash function
variable (doubleText : Double → Str) (sha : Str → Str)

/-- `Expression::ComputeHash` of an expression that is hashed by its JSON. -/
def hashJson (mark : String) (json : Option JsonValue) : Option Str := do
  let text ← (← json).dump (numberText doubleText)
  some (sha (lit mark ++ text))

/-- The view of an expression that has one JSON. -/
def View.ofJson (mark : String) (json : Option JsonValue) : View :=
  ⟨json, json, hashJson doubleText sha mark json⟩

/-- The view of a node, which is shown by its identifier where nodes are not written out. -/
def View.ofNode (json : Option JsonValue) : View :=
  let hash := hashJson doubleText sha "#" json
  ⟨json, hash.map fun hash => .object [(lit "id", .string (toHexString hash)),
    (lit "type", .string (lit "NODE"))], hash⟩

mutual
/-- The view of an expression. -/
def view : Expr → View
  | none => .ofJson doubleText sha "" (some .null)
  | bool value => .ofJson doubleText sha "" (some (.bool value))
  | number value => .ofJson doubleText sha "" (some (.number (.double value)))
  | string value => .ofJson doubleText sha "" (some (.string value))
  | namedTarget name => .ofJson doubleText sha "$" (some name.toJson)
  | anonymousTarget ruleMap targetNode =>
    .ofJson doubleText sha "$" (do
      let ruleMap ← (view ruleMap).hash
      let targetNode ← (view targetNode).hash
      some (.array [.string (lit "#"), .string (toHexString ruleMap),
        .string (toHexString targetNode)]))
  | artifact value => .ofJson doubleText sha "@" (some value.toJson)
  | result artifactStage provides runfiles _ =>
    .ofJson doubleText sha "=" (do
      let artifactStage ← (view artifactStage).allButNodes
      let provides ← (view provides).allButNodes
      let runfiles ← (view runfiles).allButNodes
      some (.object [(lit "artifact_stage", artifactStage), (lit "provides", provides),
        (lit "runfiles", runfiles)]))
  | valueNode value =>
    .ofNode doubleText sha (do
      let value ← (view value).all
      some (.object [(lit "result", value), (lit "type", .string (lit "VALUE_NODE"))]))
  | abstractNode nodeType stringFields targetFields =>
    .ofNode doubleText sha (do
      let stringFields ← (view stringFields).all
      let targetFields ← (view targetFields).allButNodes
      some (.object [(lit "node_type", .string nodeType), (lit "string_fields", stringFields),
        (lit "target_fields", targetFields), (lit "type", .string (lit "ABSTRACT_NODE"))]))
  | list items =>
    let views := viewItems items
    ⟨views.all.map .array, views.allButNodes.map .array,
      views.hash.map fun hashes => sha (lit "[" ++ hashes)⟩
  | map fields =>
    let views := viewFields fields
    ⟨views.all.map .object, views.allButNodes.map .object,
      views.hash.map fun hashes => sha (lit "\x7b" ++ hashes)⟩

/-- The views of the items of a list. -/
def viewItems : List Expr → Views JsonValue
  | [] => ⟨some [], some [], some []⟩
  | item :: rest =>
    let first := view item
    let more := viewItems rest
    ⟨do some ((← first.all) :: (← more.all)),
      do some ((← first.allButNodes) :: (← more.allButNodes)),
      do some ((← first.hash) ++ (← more.hash))⟩

/-- The views of the entries of a map. -/
def viewFields : List (Str × Expr) → Views (Str × JsonValue)
  | [] => ⟨some [], some [], some []⟩
  | (key, value) :: rest =>
    let first := view value
    let more := viewFields rest
    ⟨do some ((key, ← first.all) :: (← more.all)),
      do some ((key, ← first.allButNodes) :: (← more.allButNodes)),
      do some (sha key ++ (← first.hash) ++ (← more.hash))⟩
end

def toJson (mode : JsonMode) (expr : Expr) : Option JsonValue :=
  (view doubleText sha expr).json mode

def toHash (expr : Expr) : Option Str := (view doubleText sha expr).hash

def toIdentifier (expr : Expr) : Option Str := (toHash doubleText sha expr).map toHexString

end Hash

end Expr

end Jst.Expression
