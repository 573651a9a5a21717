import Jst.Common.ActionGraph
import Jst.Data.Sorting
import Jst.Expression.Expression
import Mathlib.Logic.Function.Basic
/-!
# The result map

`ResultTargetMap` collects analysed targets by their names and configurations, in shards by the hash
of the name, and lists the actions, blobs, trees and tree overlays of all of them. What the standard
library leaves open is a parameter: hashes of names, the order in which the entries of a hash map
are listed, and that of equivalent elements after sorting. The labels that progress reporting keeps
are left out.
-/
namespace Jst.Target

open Number Expression SortedMap Sorting

section Model

variable {doubleText : Double → Str} {sha : Str → Str}

/-- `ExpressionPtr` — an expression that has been hashed. -/
structure ExpressionPtr (doubleText : Double → Str) (sha : Str → Str) where
  expr : Expr
  /-- `ToHash`. -/
  hash : Str
  hashed : expr.toHash doubleText sha = some hash

/-- `ExpressionPtr::operator==`. -/
def ExpressionPtr.same (ptr other : ExpressionPtr doubleText sha) : Bool := ptr.hash = other.hash

/-- `ExpressionPtr::operator<`. -/
def ExpressionPtr.less (ptr other : ExpressionPtr doubleText sha) : Bool := ptr.hash < other.hash

def ExpressionPtr.toIdentifier (ptr : ExpressionPtr doubleText sha) : Str := toHexString ptr.hash

/-- `ExpressionPtr::ToJson`; what has a hash has a JSON. -/
def ExpressionPtr.toJson (ptr : ExpressionPtr doubleText sha) : JsonValue :=
  (ptr.expr.toJson doubleText sha .serializeAll).getD .null

/-- The value of a `ReferenceType`. -/
def referenceIndex : ReferenceType → Nat
  | .target => 0
  | .file => 1
  | .tree => 2
  | .glob => 3
  | .symlink => 4

/-- `NamedTarget::operator<`. -/
def lessNamedTarget (name other : NamedTarget) : Bool :=
  if name.repository ≠ other.repository then name.repository < other.repository
  else if name.module ≠ other.module then name.module < other.module
  else if name.name ≠ other.name then name.name < other.name
  else referenceIndex name.referenceType < referenceIndex other.referenceType

structure AnonymousTarget (doubleText : Double → Str) (sha : Str → Str) where
  ruleMap : ExpressionPtr doubleText sha
  targetNode : ExpressionPtr doubleText sha

/-- `AnonymousTarget::operator==`. -/
def AnonymousTarget.same (target other : AnonymousTarget doubleText sha) : Bool :=
  target.ruleMap.same other.ruleMap && target.targetNode.same other.targetNode

/-- `AnonymousTarget::operator<`. -/
def AnonymousTarget.less (target other : AnonymousTarget doubleText sha) : Bool :=
  if target.ruleMap.less other.ruleMap then true
  else if other.ruleMap.less target.ruleMap then false
  else target.targetNode.less other.targetNode

/-- `EntityName` — a variant. -/
inductive EntityName (doubleText : Double → Str) (sha : Str → Str) where
  | named (name : NamedTarget)
  | anonymous (target : AnonymousTarget doubleText sha)

/-- `EntityName::operator==`. -/
def EntityName.same : EntityName doubleText sha → EntityName doubleText sha → Bool
  | .named name, .named other => name = other
  | .anonymous target, .anonymous other => target.same other
  | _, _ => false

/-- `EntityName::operator<` — variants are compared by their alternatives first. -/
def EntityName.less : EntityName doubleText sha → EntityName doubleText sha → Bool
  | .named name, .named other => lessNamedTarget name other
  | .named _, .anonymous _ => true
  | .anonymous _, .named _ => false
  | .anonymous target, .anonymous other => target.less other

def EntityName.toJson : EntityName doubleText sha → JsonValue
  | .named name => name.toJson
  | .anonymous target => .array [.string (lit "#"), .string target.ruleMap.toIdentifier,
      .string target.targetNode.toIdentifier]

structure ConfiguredTarget (doubleText : Double → Str) (sha : Str → Str) where
  target : EntityName doubleText sha
  config : ExpressionPtr doubleText sha

/-- `ConfiguredTarget::operator==`. -/
def ConfiguredTarget.same (target other : ConfiguredTarget doubleText sha) : Bool :=
  target.target.same other.target && target.config.same other.config

/-- `ConfiguredTarget::operator<`. -/
def ConfiguredTarget.less (target other : ConfiguredTarget doubleText sha) : Bool :=
  if target.target.less other.target then true
  else if other.target.less target.target then false
  else target.config.less other.config

/-- `AnalysedTarget`, as far as its actions and objects are listed; trees and overlays have been
made by their constructors. -/
structure AnalysedTarget (doubleText : Double → Str) (sha : Str → Str) where
  actions : List ActionDescription
  blobs : List Str
  trees : List ActionGraph.Tree
  treeOverlays : List ActionGraph.TreeOverlay
  treesMade : ∀ tree ∈ trees, ActionGraph.Tree.ofInputs doubleText sha tree.inputs = some tree
  overlaysMade : ∀ overlay ∈ treeOverlays,
    ActionGraph.TreeOverlay.ofTrees doubleText sha overlay.trees overlay.disjoint = some overlay

/-- The identifiers of actions and of overlays behind them. -/
def AnalysedTarget.ids (result : AnalysedTarget doubleText sha) : List Str :=
  (result.actions.map fun action => action.action.id) ++
    result.treeOverlays.map ActionGraph.TreeOverlay.id

/-- What is added to the map. -/
abbrev Addition (doubleText : Double → Str) (sha : Str → Str) :=
  ConfiguredTarget doubleText sha × AnalysedTarget doubleText sha

/-- What the standard library leaves open. -/
structure Library (doubleText : Double → Str) (sha : Str → Str) where
  /-- `std::hash` of a name. -/
  hashName : EntityName doubleText sha → Nat
  hashName_same : ∀ name other, name.same other = true → hashName name = hashName other
  entries : List (Addition doubleText sha) → List (Addition doubleText sha)
  entries_perm : ∀ shard, (entries shard).Perm shard
  /-- `std::sort`. -/
  sorting : Sorter

/-- `ResultTargetMap` — the entries of a shard stand in the order in which they were added. -/
structure ResultTargetMap (doubleText : Double → Str) (sha : Str → Str) where
  width : Nat
  targets : Nat → List (Addition doubleText sha)

/-- A map in which nothing is. -/
def ResultTargetMap.empty (width : Nat) : ResultTargetMap doubleText sha := ⟨width, fun _ => []⟩

/-- An origin of an action: a target, and the position in it. -/
abbrev Origin (doubleText : Double → Str) (sha : Str → Str) :=
  ConfiguredTarget doubleText sha × Nat

/-- How origins are sorted. -/
def lessOrigin (left right : Origin doubleText sha) : Bool :=
  left.1.less right.1 || (left.1.same right.1 && left.2 < right.2)

/-- `origin_map` — identifiers without an entry have no origins. -/
abbrev OriginMap (doubleText : Double → Str) (sha : Str → Str) := Str → List (Origin doubleText sha)

/-- The loop over the identifiers of a target from a position on. -/
def pushOrigins (target : ConfiguredTarget doubleText sha) :
    Nat → List Str → OriginMap doubleText sha → OriginMap doubleText sha
  | _, [], origins => origins
  | pos, id :: rest, origins =>
    pushOrigins target (pos + 1) rest (update origins id (origins id ++ [(target, pos)]))

structure ActionWithOrigin where
  desc : ActionDescription
  origin : JsonValue

structure ResultType where
  actions : List ActionWithOrigin
  blobs : List Str
  trees : List ActionGraph.Tree
  treeOverlays : List ActionGraph.TreeOverlay

/-- The JSON of the origins of an action. -/
def originsToJson (origins : List (Origin doubleText sha)) : JsonValue :=
  .array (origins.map fun (target, count) => .object [(lit "config", target.config.toJson),
    (lit "subtask", .number (.unsigned count)), (lit "target", target.target.toJson)])

/-- The JSON of an action, with its origins if they are included. -/
def ActionWithOrigin.toJson (includeOrigins : Bool) (action : ActionWithOrigin) : JsonValue :=
  if includeOrigins then .object (insert (lit "origins") action.origin action.desc.toFields)
  else action.desc.toJson

/-- The JSON of objects by their identifiers. -/
def objectsToJson {Object : Type} (id : Object → Str) (toJson : Object → JsonValue)
    (objects : List Object) : List (Str × JsonValue) :=
  objects.foldl (fun json object => insert (id object) (toJson object) json) []

/-- `ResultTargetMap::ToJson`, of a result. -/
def ResultType.toJson (includeOrigins : Bool) (result : ResultType) : JsonValue :=
  let actions := objectsToJson (fun action => action.desc.action.id)
    (ActionWithOrigin.toJson includeOrigins) result.actions
  let trees := objectsToJson ActionGraph.Tree.id ActionGraph.Tree.toJson result.trees
  let treeOverlays :=
    objectsToJson ActionGraph.TreeOverlay.id ActionGraph.TreeOverlay.toJson result.treeOverlays
  let json := [(lit "actions", .object actions),
    (lit "blobs", ActionGraph.stringsToJson result.blobs), (lit "trees", .object trees)]
  .object (if treeOverlays.isEmpty then json
    else insert (lit "tree_overlays") (.object treeOverlays) json)

namespace Library

variable (library : Library doubleText sha)

/-- `ResultTargetMap::Add` — `emplace` keeps an entry that is there. -/
def add (map : ResultTargetMap doubleText sha) (addition : Addition doubleText sha) :
    ResultTargetMap doubleText sha :=
  let part := library.hashName addition.1.target % map.width
  let shard := map.targets part
  if shard.any fun entry => entry.1.same addition.1 then map
  else { map with targets := update map.targets part (shard ++ [addition]) }

/-- Additions one after the other. -/
def addAll (width : Nat) (additions : List (Addition doubleText sha)) :
    ResultTargetMap doubleText sha :=
  additions.foldl library.add (.empty width)

/-- The entries of all shards, as they are listed. -/
def allEntries (map : ResultTargetMap doubleText sha) : List (Addition doubleText sha) :=
  (List.range map.width).flatMap fun part => library.entries (map.targets part)

/-- The origins of the entries of one shard are collected, and all origins are sorted. -/
def collectShard (map : ResultTargetMap doubleText sha) (origins : OriginMap doubleText sha)
    (part : Nat) : OriginMap doubleText sha :=
  let origins := (library.entries (map.targets part)).foldl
    (fun origins entry => pushOrigins entry.1 0 entry.2.ids origins) origins
  fun id => library.sorting.sort lessOrigin (origins id)

/-- `origin_map`, when all origins are collected. -/
def originMap (map : ResultTargetMap doubleText sha) : OriginMap doubleText sha :=
  (List.range map.width).foldl (library.collectShard map) fun _ => []

/-- Sort objects by their identifiers, and keep one for each. -/
def sortObjects {Object : Type} (id : Object → Str) (objects : List Object) : List Object :=
  unique (fun left right => id left = id right)
    (library.sorting.sort (fun left right => id left < id right) objects)

def toResult (map : ResultTargetMap doubleText sha) : ResultType :=
  let origins := library.originMap map
  let entries := library.allEntries map
  { actions := library.sortObjects (fun action => action.desc.action.id)
      (entries.flatMap fun entry => entry.2.actions.map fun action =>
        ⟨action, originsToJson (origins action.action.id)⟩)
    blobs := library.sortObjects id (entries.flatMap fun entry => entry.2.blobs)
    trees := library.sortObjects ActionGraph.Tree.id (entries.flatMap fun entry => entry.2.trees)
    treeOverlays := library.sortObjects ActionGraph.TreeOverlay.id
      (entries.flatMap fun entry => entry.2.treeOverlays) }

def toJson (includeOrigins : Bool) (map : ResultTargetMap doubleText sha) : JsonValue :=
  (library.toResult map).toJson includeOrigins

end Library

end Model

end Jst.Target
