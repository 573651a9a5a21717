import Jst.Common.ActionGraph
/-!
# Reading a graph description

`GraphTraverser` builds a dumped graph: it reads blobs, trees, actions and tree overlays from the
JSON and makes the objects of them, with the keys as their identifiers. Overlays may be missing.
-/
namespace Jst.Graph

open ActionGraph

/-- What is read from a graph description. -/
structure GraphDescription where
  blobs : List Str
  actions : List ActionDescription
  trees : List ActionGraph.Tree
  treeOverlays : List TreeOverlay

/-- A loop over the entries of an object; the first entry that cannot be read ends it. -/
def readObjects {Object : Type} (fromJson : Str → JsonValue → Option Object) (json : JsonValue) :
    Option (List Object) :=
  (items json).mapM fun entry => fromJson entry.1 entry.2

/-- `GraphTraverser::ReadGraphDescription`, and the loops of `GraphTraverser::BuildAndStage`. -/
def readGraphDescription (hashType : HashType) (json : JsonValue) : Option GraphDescription := do
  let blobs ← (jsonField json "blobs").bind getStrings
  let trees ← jsonField json "trees"
  let actions ← jsonField json "actions"
  let treeOverlays := (jsonField json "tree_overlays").getD (.object [])
  let actionDescriptions ← readObjects (ActionDescription.fromJson hashType) actions
  let treeDescriptions ← readObjects (Tree.fromJson hashType) trees
  let overlayDescriptions ← readObjects (TreeOverlay.fromJson hashType) treeOverlays
  some ⟨blobs, actionDescriptions, treeDescriptions, overlayDescriptions⟩

end Jst.Graph
