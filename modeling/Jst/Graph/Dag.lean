import Jst.Common.ArtifactDescription
/-!
# Building the dependency graph

The nodes are kept in the order in which they were created. A pointer to a node is its place there,
which is also what the index of the identifiers gives for it.
-/
namespace Jst.Dag

/-- What the graph reads of an `Action`. -/
structure Action where
  id : Str
  command : List Str
  isTreeAction : Bool
  isTreeOverlayAction : Bool

/-- What the graph reads of an `ActionDescription`. -/
structure Description where
  outputFiles : List Str
  outputDirs : List Str
  /-- `GraphAction`. -/
  action : Action
  inputs : List (Str × ArtifactDescription)

/-- `NamedOtherNodePtr` — a path and an artifact node. -/
abbrev NamedNode := Str × Nat

structure ActionNode where
  content : Action
  parents : List Nat := []
  children : List Nat := []
  outputFiles : List NamedNode := []
  outputDirs : List NamedNode := []
  dependencies : List NamedNode := []
  /-- `unavailable_deps_`, as a mathematical integer. -/
  unavailableDeps : Int := -1

structure ArtifactNode where
  content : ArtifactDescription
  parents : List Nat := []
  children : List Nat := []

structure DependencyGraph where
  actionNodes : List ActionNode := []
  artifactNodes : List ArtifactNode := []
  actionIds : Str → Option Nat := fun _ => none
  artifactIds : Str → Option Nat := fun _ => none

variable (idOf : ArtifactDescription → Str)

/-- The node of an identifier, which is created if it is new. -/
def addNode {Node : Type} (key : Node → Str) (new : Node) (ids : Str → Option Nat)
    (nodes : List Node) : Nat × (Str → Option Nat) × List Node :=
  match ids (key new) with
  | some place => (place, ids, nodes)
  | none =>
    (nodes.length, update ids (key new) (some nodes.length), nodes ++ [new])

/-- `AddArtifact`; `idOf` is the hash of a description. -/
def addArtifact (graph : DependencyGraph) (artifact : ArtifactDescription) :
    Nat × DependencyGraph :=
  let (node, ids, nodes) :=
    addNode (idOf ·.content) { content := artifact } graph.artifactIds graph.artifactNodes
  (node, { graph with artifactIds := ids, artifactNodes := nodes })

/-- `AddAction` of a node. -/
def addActionNode (graph : DependencyGraph) (action : Action) : Nat × DependencyGraph :=
  let (node, ids, nodes) :=
    addNode (·.content.id) { content := action } graph.actionIds graph.actionNodes
  (node, { graph with actionIds := ids, actionNodes := nodes })

/-- The loops of `node_creator` and of `CreateInputArtifactNodes`. -/
def createNodes (graph : DependencyGraph) :
    List (Str × ArtifactDescription) → List NamedNode × DependencyGraph
  | [] => ([], graph)
  | (path, artifact) :: rest =>
    let (node, graph) := addArtifact idOf graph artifact
    let (nodes, graph) := createNodes graph rest
    ((path, node) :: nodes, graph)

/-- `CreateOutputArtifactNodes` — the nodes of the files and of the directories. -/
def createOutputArtifactNodes (graph : DependencyGraph) (description : Description) :
    List NamedNode × List NamedNode × DependencyGraph :=
  let id := description.action.id
  if description.action.isTreeOverlayAction then
    ([], createNodes idOf graph [([], .treeOverlay id)])
  else if description.action.isTreeAction then
    ([], createNodes idOf graph [([], .tree id)])
  else
    let (files, graph) :=
      createNodes idOf graph (description.outputFiles.map fun path => (path, .action id path))
    (files, createNodes idOf graph
      (description.outputDirs.map fun path => (path, .action id path)))

def createActionNode (graph : DependencyGraph) (action : Action) : Option Nat × DependencyGraph :=
  if action.isTreeAction ∨ action.isTreeOverlayAction ∨ action.command ≠ [] then
    let (node, graph) := addActionNode graph action
    (some node, graph)
  else (none, graph)

/-- `AddOutputFile` or `AddOutputDir`. -/
def ActionNode.addOutput (dir : Bool) (output : NamedNode) (node : ActionNode) : ActionNode :=
  if dir then
    { node with parents := node.parents ++ [output.2], outputDirs := node.outputDirs ++ [output] }
  else
    { node with parents := node.parents ++ [output.2], outputFiles := node.outputFiles ++ [output] }

def ActionNode.addDependency (dependency : NamedNode) (node : ActionNode) : ActionNode :=
  { node with
    children := node.children ++ [dependency.2]
    dependencies := node.dependencies ++ [dependency] }

/-- `AddChild` in `AddBuilderActionNode`. -/
def ArtifactNode.addChild (action : Nat) (node : ArtifactNode) : ArtifactNode :=
  { node with children := node.children ++ [action] }

/-- `AddConsumerActionNode`. -/
def ArtifactNode.addParent (action : Nat) (node : ArtifactNode) : ArtifactNode :=
  { node with parents := node.parents ++ [action] }

def ActionNode.notifyDoneLinking (node : ActionNode) : ActionNode :=
  { node with unavailableDeps := node.children.length }

/-- The edges that a list of nodes has at a place. -/
def edges {Node : Type} (side : Node → List Nat) (nodes : List Node) (place : Nat) : List Nat :=
  (nodes[place]?.map side).getD []

/-- The loops of `LinkNodePointers` over the outputs, which are marked as files or directories.
`AddBuilderActionNode` refuses a second builder. -/
def linkOutputs (action : Nat) (graph : DependencyGraph) :
    List (Bool × NamedNode) → Bool × DependencyGraph
  | [] => (true, graph)
  | (dir, output) :: rest =>
    if edges ArtifactNode.children graph.artifactNodes output.2 = [] then
      linkOutputs action { graph with
        artifactNodes := graph.artifactNodes.modify output.2 (ArtifactNode.addChild action)
        actionNodes := graph.actionNodes.modify action (ActionNode.addOutput dir output) } rest
    else (false, graph)

/-- The loop of `LinkNodePointers` over the inputs. -/
def linkInputs (action : Nat) (graph : DependencyGraph) : List NamedNode → DependencyGraph
  | [] => graph
  | input :: rest =>
    linkInputs action { graph with
      artifactNodes := graph.artifactNodes.modify input.2 (ArtifactNode.addParent action)
      actionNodes := graph.actionNodes.modify action (ActionNode.addDependency input) } rest

def linkNodePointers (files dirs : List NamedNode) (action : Nat) (inputs : List NamedNode)
    (graph : DependencyGraph) : Bool × DependencyGraph :=
  match linkOutputs action graph (files.map (false, ·) ++ dirs.map (true, ·)) with
  | (false, graph) => (false, graph)
  | (true, graph) =>
    let graph := linkInputs action graph inputs
    (true, { graph with
      actionNodes := graph.actionNodes.modify action ActionNode.notifyDoneLinking })

def addAction (graph : DependencyGraph) (description : Description) : Bool × DependencyGraph :=
  let (files, dirs, graph) := createOutputArtifactNodes idOf graph description
  let (action, graph) := createActionNode graph description.action
  let (inputs, graph) := createNodes idOf graph description.inputs
  match action with
  | none => (false, graph)
  | some action =>
    if files = [] ∧ dirs = [] then (false, graph)
    else linkNodePointers files dirs action inputs graph

end Jst.Dag
