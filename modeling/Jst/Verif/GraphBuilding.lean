import Jst.Graph.Dag
/-!
# The dependency graph is consistent while it is built

Every edge is known at both of its ends as often as there are such edges, no artifact has a second
builder, the indices give each node for its identifier, and an action waits for as many inputs as it
has edges to them.
-/
namespace Jst.Verif.GraphBuilding

open Jst.Dag

variable {idOf : ArtifactDescription → Str} {graph : DependencyGraph} {linking : Option Nat}
  {Node : Type} {side : Node → List Nat} {nodes : List Node} {new : Node} {change : Node → Node}
  {action place x : Nat}

/-- A graph is consistent; the action that is being linked may not be counted yet. -/
structure Consistent (idOf : ArtifactDescription → Str) (linking : Option Nat)
    (graph : DependencyGraph) : Prop where
  outputs : ∀ action artifact, (edges ActionNode.parents graph.actionNodes action).count artifact =
    (edges ArtifactNode.children graph.artifactNodes artifact).count action
  inputs : ∀ action artifact, (edges ActionNode.children graph.actionNodes action).count artifact =
    (edges ArtifactNode.parents graph.artifactNodes artifact).count action
  builder : ∀ artifact, (edges ArtifactNode.children graph.artifactNodes artifact).length ≤ 1
  actions : ∀ id place, graph.actionIds id = some place ↔
    graph.actionNodes[place]?.map (·.content.id) = some id
  artifacts : ∀ id place, graph.artifactIds id = some place ↔
    graph.artifactNodes[place]?.map (idOf ·.content) = some id
  counted : ∀ place node, graph.actionNodes[place]? = some node → linking ≠ some place →
    node.unavailableDeps = node.children.length

/-- Nodes are only added, and no artifact gets a builder. -/
structure Grown (before after : DependencyGraph) : Prop where
  actions : before.actionNodes.length ≤ after.actionNodes.length
  artifacts : before.artifactNodes.length ≤ after.artifactNodes.length
  builders : edges ArtifactNode.children after.artifactNodes =
    edges ArtifactNode.children before.artifactNodes

/-- The graphs that successful additions lead to. -/
inductive Built (idOf : ArtifactDescription → Str) : DependencyGraph → Prop where
  | empty : Built idOf {}
  | addArtifact {graph : DependencyGraph} (built : Built idOf graph) (artifact : ArtifactDescription) :
    Built idOf (addArtifact idOf graph artifact).2
  | addAction {graph : DependencyGraph} (built : Built idOf graph) (description : Description)
    (added : (addAction idOf graph description).1 = true) :
    Built idOf (addAction idOf graph description).2

/-- An action can run and has outputs, none of them twice and none with a builder. -/
def Addable (idOf : ArtifactDescription → Str) (graph : DependencyGraph)
    (description : Description) : Prop :=
  let action := description.action
  let (files, dirs, _) := createOutputArtifactNodes idOf graph description
  (action.isTreeAction ∨ action.isTreeOverlayAction ∨ action.command ≠ []) ∧ files ++ dirs ≠ [] ∧
    ((files ++ dirs).map snd).Nodup ∧
    ∀ node ∈ files ++ dirs, edges ArtifactNode.children graph.artifactNodes node.2 = []

theorem Grown.trans {first second third : DependencyGraph} (front : Grown first second)
    (back : Grown second third) : Grown first third :=
  ⟨front.actions.trans back.actions, front.artifacts.trans back.artifacts,
    back.builders.trans front.builders⟩

theorem getElem?_concat (place : Nat) : (nodes ++ [new])[place]? =
    if place = nodes.length then some new else nodes[place]? := by
  rcases Nat.lt_trichotomy place nodes.length with less | same | more
  · rw [List.getElem?_append_left less, if_neg (Nat.ne_of_lt less)]
  · simp [same]
  · rw [if_neg (Nat.ne_of_gt more), List.getElem?_eq_none (by simp; omega),
      List.getElem?_eq_none (Nat.le_of_lt more)]

theorem addNode_spec {key : Node → Str} {ids : Str → Option Nat}
    (indexed : ∀ id place, ids id = some place ↔ nodes[place]?.map key = some id) (new : Node) :
    let made := addNode key new ids nodes
    (∀ id place, made.2.1 id = some place ↔ made.2.2[place]?.map key = some id) ∧
      made.1 < made.2.2.length ∧
      (made.2.2 = nodes ∨ made.2.2 = nodes ++ [new] ∧ made.1 = nodes.length) := by
  unfold addNode
  split
  · next place found =>
    obtain ⟨old, there, -⟩ := map_eq_some_iff.mp ((indexed _ _).mp found)
    exact ⟨indexed, (List.getElem?_eq_some_iff.mp there).1, .inl rfl⟩
  · next fresh =>
    refine ⟨fun id place => ?_, by simp, .inr ⟨rfl, rfl⟩⟩
    simp only [getElem?_concat]
    have last := indexed id nodes.length
    rw [List.getElem?_eq_none le_rfl] at last
    by_cases same : id = key new
    · subst same
      have absent := indexed (key new) place
      rw [fresh] at absent
      rw [update_self]
      split
      · next here => simp [here]
      · next other => simpa [Ne.symm other] using absent
    · rw [update_of_ne same, indexed]
      split
      · next here => simp [here, Ne.symm same]
      · rfl

variable {nodes' : List Node}

theorem edges_grown {made : Nat} (side : Node → List Nat)
    (grown : nodes' = nodes ∨ nodes' = nodes ++ [new] ∧ made = nodes.length)
    (empty : side new = []) : edges side nodes' = edges side nodes := by
  rcases grown with rfl | ⟨rfl, -⟩
  · rfl
  · funext place
    rw [edges, getElem?_concat]
    split
    · next same => simp [edges, same, empty]
    · rfl

theorem length_grown {made : Nat}
    (grown : nodes' = nodes ∨ nodes' = nodes ++ [new] ∧ made = nodes.length) :
    nodes.length ≤ nodes'.length := by
  rcases grown with rfl | ⟨rfl, -⟩ <;> simp

theorem map_modify {Key : Type} (key : Node → Key) (change : Node → Node)
    (keeps : ∀ node, key (change node) = key node) (other : Nat) :
    (nodes.modify place change)[other]?.map key = nodes[other]?.map key := by
  rw [List.getElem?_modify]
  cases nodes[other]? with
  | none => rfl
  | some node => by_cases same : place = other <;> simp [same, keeps]

theorem edges_modify (side : Node → List Nat) (more : List Nat) (inside : place < nodes.length)
    (adds : ∀ node, side (change node) = side node ++ more) :
    edges side (nodes.modify place change) =
      update (edges side nodes) place (edges side nodes place ++ more) := by
  funext other
  by_cases same : other = place
  · subst same
    simp [edges, inside, adds]
  · rw [update_of_ne same]
    simp [edges, Ne.symm same]

theorem count_link {left right : Nat → List Nat}
    (same : ∀ a b, (left a).count b = (right b).count a) (count x y a b : Nat) :
    (update left x (left x ++ replicate count y) a).count b =
      (update right y (right y ++ replicate count x) b).count a := by
  by_cases first : a = x <;> by_cases second : b = y <;>
    simp [first, second, same, List.count_replicate, Ne.symm]

theorem addArtifact_consistent (consistent : Consistent idOf linking graph)
    (artifact : ArtifactDescription) : let made := addArtifact idOf graph artifact
    Consistent idOf linking made.2 ∧ Grown graph made.2 ∧ made.1 < made.2.artifactNodes.length := by
  obtain ⟨indexed, inside, grown⟩ := addNode_spec consistent.artifacts { content := artifact }
  have children := edges_grown ArtifactNode.children grown rfl
  have parents := edges_grown ArtifactNode.parents grown rfl
  refine ⟨⟨?_, ?_, ?_, consistent.actions, indexed, consistent.counted⟩,
    ⟨le_rfl, length_grown grown, children⟩, inside⟩
  · simpa only [addArtifact, children] using consistent.outputs
  · simpa only [addArtifact, parents] using consistent.inputs
  · simpa only [addArtifact, children] using consistent.builder

theorem createNodes_consistent (artifacts : List (Str × ArtifactDescription))
    (consistent : Consistent idOf linking graph) : let made := createNodes idOf graph artifacts
    Consistent idOf linking made.2 ∧ Grown graph made.2 ∧
      ∀ node ∈ made.1, node.2 < made.2.artifactNodes.length := by
  induction artifacts generalizing graph with
  | nil => exact ⟨consistent, ⟨le_rfl, le_rfl, rfl⟩, nofun⟩
  | cons artifact rest step =>
    obtain ⟨consistent, front, inside⟩ := addArtifact_consistent consistent artifact.2
    obtain ⟨consistent, back, others⟩ := step consistent
    exact ⟨consistent, front.trans back,
      forall_mem_cons.mpr ⟨inside.trans_le back.artifacts, others⟩⟩

theorem addActionNode_consistent (consistent : Consistent idOf none graph) (content : Dag.Action) :
    let made := addActionNode graph content
    Consistent idOf (some made.1) made.2 ∧ Grown graph made.2 ∧
      made.1 < made.2.actionNodes.length := by
  obtain ⟨indexed, inside, grown⟩ := addNode_spec consistent.actions { content := content }
  have children := edges_grown ActionNode.children grown rfl
  have parents := edges_grown ActionNode.parents grown rfl
  refine ⟨⟨?_, ?_, consistent.builder, indexed, consistent.artifacts, ?_⟩,
    ⟨length_grown grown, le_rfl, rfl⟩, inside⟩
  · simpa only [addActionNode, parents] using consistent.outputs
  · simpa only [addActionNode, children] using consistent.inputs
  · intro place node found other
    refine consistent.counted place node ?_ nofun
    rcases grown with same | ⟨same, last⟩
    · simpa only [addActionNode, same] using found
    · simp only [addActionNode, same, getElem?_concat] at found other
      rw [last] at other
      rwa [if_neg (by simpa [eq_comm] using other)] at found

theorem Consistent.link (onArtifact : ArtifactNode → ArtifactNode)
    (onAction : ActionNode → ActionNode) (outputs inputs : Nat)
    (consistent : Consistent idOf (some action) graph) (inside : action < graph.actionNodes.length)
    (inside' : place < graph.artifactNodes.length)
    (artifact : ∀ node, (onArtifact node).children = node.children ++ replicate outputs action ∧
      (onArtifact node).parents = node.parents ++ replicate inputs action ∧
      (onArtifact node).content = node.content)
    (act : ∀ node, (onAction node).parents = node.parents ++ replicate outputs place ∧
      (onAction node).children = node.children ++ replicate inputs place ∧
      (onAction node).content = node.content)
    (free : (edges ArtifactNode.children graph.artifactNodes place).length + outputs ≤ 1) :
    Consistent idOf (some action) { graph with
      artifactNodes := graph.artifactNodes.modify place onArtifact
      actionNodes := graph.actionNodes.modify action onAction } where
  outputs other key := by
    simp only [edges_modify _ _ inside' fun node => (artifact node).1,
      edges_modify _ _ inside fun node => (act node).1]
    exact count_link consistent.outputs ..
  inputs other key := by
    simp only [edges_modify _ _ inside' fun node => (artifact node).2.1,
      edges_modify _ _ inside fun node => (act node).2.1]
    exact count_link consistent.inputs ..
  builder key := by
    simp only [edges_modify _ _ inside' fun node => (artifact node).1]
    by_cases same : key = place
    · simpa [same] using free
    · rw [update_of_ne same]
      exact consistent.builder key
  actions id other := by
    simp only [map_modify (·.content.id) _ fun node => congrArg Dag.Action.id (act node).2.2]
    exact consistent.actions id other
  artifacts id other := by
    simp only [map_modify (idOf ·.content) _ fun node => congrArg idOf (artifact node).2.2]
    exact consistent.artifacts id other
  counted other node found unlike := by
    refine consistent.counted other node ?_ unlike
    simpa [List.getElem?_modify, show action ≠ other by simpa using unlike] using found

theorem linkOutputs_consistent (outputs : List (Bool × NamedNode))
    (consistent : Consistent idOf (some action) graph) (inside : action < graph.actionNodes.length)
    (insides : ∀ output ∈ outputs, output.2.2 < graph.artifactNodes.length) :
    let made := linkOutputs action graph outputs
    Consistent idOf (some action) made.2 ∧
      made.2.actionNodes.length = graph.actionNodes.length ∧
      made.2.artifactNodes.length = graph.artifactNodes.length ∧
      (made.1 = true ↔ (outputs.map (·.2.2)).Nodup ∧
        ∀ output ∈ outputs, edges ArtifactNode.children graph.artifactNodes output.2.2 = []) := by
  induction outputs generalizing graph with
  | nil => exact ⟨consistent, rfl, rfl, by simp [linkOutputs]⟩
  | cons output rest step =>
    obtain ⟨dir, output⟩ := output
    simp only [linkOutputs]
    obtain ⟨inside', others⟩ := forall_mem_cons.mp insides
    split
    · next free =>
      have empty : ∀ place, edges ArtifactNode.children
          (graph.artifactNodes.modify output.2 (ArtifactNode.addChild action)) place = [] ↔
          edges ArtifactNode.children graph.artifactNodes place = [] ∧ place ≠ output.2 := by
        intro place
        rw [edges_modify _ [action] inside' fun _ => rfl]
        by_cases same : place = output.2 <;> simp [same]
      obtain ⟨kept, length, length', linked⟩ := step
        (consistent.link (ArtifactNode.addChild action) (ActionNode.addOutput dir output) 1 0 inside
          inside' (fun node => ⟨rfl, (append_nil _).symm, rfl⟩)
          (fun node => by cases dir <;> exact ⟨rfl, (append_nil _).symm, rfl⟩)
          (by simp only [free]; exact Nat.le_refl 1))
        (by simpa using inside) (by simpa using others)
      refine ⟨kept, by simpa using length, by simpa using length', linked.trans ?_⟩
      simp only [empty, map_cons, nodup_cons, forall_mem_cons, mem_map]
      constructor
      · rintro ⟨distinct, unbuilt⟩
        exact ⟨⟨fun ⟨node, member, same⟩ => (unbuilt node member).2 same, distinct⟩, free,
          fun node member => (unbuilt node member).1⟩
      · rintro ⟨⟨unlike, distinct⟩, -, unbuilt⟩
        exact ⟨distinct, fun node member =>
          ⟨unbuilt node member, fun same => unlike ⟨node, member, same⟩⟩⟩
    · next taken => exact ⟨consistent, rfl, rfl, by simp [taken]⟩

theorem linkInputs_consistent (inputs : List NamedNode)
    (consistent : Consistent idOf (some action) graph) (inside : action < graph.actionNodes.length)
    (insides : ∀ input ∈ inputs, input.2 < graph.artifactNodes.length) :
    Consistent idOf (some action) (linkInputs action graph inputs) := by
  induction inputs generalizing graph with
  | nil => exact consistent
  | cons input rest step =>
    obtain ⟨inside', others⟩ := forall_mem_cons.mp insides
    exact step (consistent.link (ArtifactNode.addParent action) (ActionNode.addDependency input) 0 1
      inside inside' (fun node => ⟨(append_nil _).symm, rfl, rfl⟩)
      (fun node => ⟨(append_nil _).symm, rfl, rfl⟩) (consistent.builder _)) (by simpa using inside)
      (by simpa using others)

theorem Consistent.notifyDoneLinking (consistent : Consistent idOf (some action) graph) :
    Consistent idOf none { graph with
      actionNodes := graph.actionNodes.modify action ActionNode.notifyDoneLinking } where
  outputs := by
    simpa only [edges, map_modify ActionNode.parents ActionNode.notifyDoneLinking fun _ => rfl] using consistent.outputs
  inputs := by
    simpa only [edges, map_modify ActionNode.children ActionNode.notifyDoneLinking fun _ => rfl] using consistent.inputs
  builder := consistent.builder
  actions := by
    simpa only [map_modify (·.content.id) ActionNode.notifyDoneLinking fun _ => rfl] using consistent.actions
  artifacts := consistent.artifacts
  counted place node found _ := by
    by_cases same : action = place
    · obtain ⟨old, -, rfl⟩ := map_eq_some_iff.mp (by simpa [same] using found)
      rfl
    · exact consistent.counted place node (by simpa [same] using found) (by simpa using same)

theorem linkNodePointers_consistent {files dirs inputs : List NamedNode}
    (consistent : Consistent idOf (some action) graph) (inside : action < graph.actionNodes.length)
    (insides : ∀ node ∈ files ++ dirs, node.2 < graph.artifactNodes.length)
    (insides' : ∀ node ∈ inputs, node.2 < graph.artifactNodes.length) :
    let made := linkNodePointers files dirs action inputs graph
    (made.1 = true ↔ ((files ++ dirs).map snd).Nodup ∧
      ∀ node ∈ files ++ dirs, edges ArtifactNode.children graph.artifactNodes node.2 = []) ∧
    (made.1 = true → Consistent idOf none made.2) := by
  obtain ⟨kept, length, length', linked⟩ :=
    linkOutputs_consistent (files.map (false, ·) ++ dirs.map (true, ·)) consistent inside (by
      rw [forall_mem_append, forall_mem_map, forall_mem_map]
      exact forall_mem_append.mp insides)
  simp only [map_append, map_map, comp_def, forall_mem_append, forall_mem_map] at linked
  simp only [linkNodePointers, map_append, forall_mem_append]
  split
  · next refused =>
    rw [refused] at linked
    exact ⟨linked, nofun⟩
  · next complete =>
    rw [complete] at kept length length' linked
    exact ⟨linked, fun _ => (linkInputs_consistent inputs kept (length ▸ inside)
      (length' ▸ insides')).notifyDoneLinking⟩

theorem createOutputArtifactNodes_consistent (consistent : Consistent idOf linking graph)
    (description : Description) : let made := createOutputArtifactNodes idOf graph description
    Consistent idOf linking made.2.2 ∧ Grown graph made.2.2 ∧
      ∀ node ∈ made.1 ++ made.2.1, node.2 < made.2.2.artifactNodes.length := by
  simp only [createOutputArtifactNodes]
  split
  · exact createNodes_consistent _ consistent
  · split
    · exact createNodes_consistent _ consistent
    · obtain ⟨consistent, front, files⟩ := createNodes_consistent
        (description.outputFiles.map fun path => (path, .action description.action.id path)) consistent
      obtain ⟨consistent, back, dirs⟩ := createNodes_consistent
        (description.outputDirs.map fun path => (path, .action description.action.id path)) consistent
      exact ⟨consistent, front.trans back, forall_mem_append.mpr
        ⟨fun node member => (files node member).trans_le back.artifacts, dirs⟩⟩

theorem addAction_consistent (consistent : Consistent idOf none graph) (description : Description) :
    let made := addAction idOf graph description
    (made.1 = true ↔ Addable idOf graph description) ∧
      (made.1 = true → Consistent idOf none made.2) := by
  obtain ⟨first, grown, outputs⟩ := createOutputArtifactNodes_consistent consistent description
  simp only [addAction, Addable, createActionNode]
  generalize createOutputArtifactNodes idOf graph description = created at *
  obtain ⟨files, dirs, created⟩ := created
  by_cases runnable : description.action.isTreeAction = true ∨
    description.action.isTreeOverlayAction = true ∨ description.action.command ≠ []
  · obtain ⟨second, grown', inside⟩ := addActionNode_consistent first description.action
    obtain ⟨third, grown'', inputs⟩ := createNodes_consistent description.inputs second
    simp only [if_pos runnable]
    split
    · next empty => simp [empty]
    · next some =>
      have linked := @linkNodePointers_consistent _ _ _ files dirs _ third
        (inside.trans_le grown''.actions) (fun node member => (outputs node member).trans_le
          (grown'.artifacts.trans grown''.artifacts)) inputs
      rw [grown''.builders, grown'.builders, grown.builders] at linked
      exact ⟨by simpa [runnable, some] using linked.1, linked.2⟩
  · simp [runnable]

/-- A graph that successful additions lead to is consistent, and the next action is added just if it
can run and is the only builder of each of its outputs, of which it has some. -/
theorem built_consistent (built : Built idOf graph) : Consistent idOf none graph ∧
    ∀ description, (addAction idOf graph description).1 = true ↔ Addable idOf graph description := by
  have consistent : Consistent idOf none graph := by
    induction built with
    | empty => exact ⟨fun _ _ => rfl, fun _ _ => rfl, fun _ => Nat.zero_le 1, by simp, by simp, nofun⟩
    | addArtifact _ artifact consistent => exact (addArtifact_consistent consistent artifact).1
    | addAction _ description added consistent =>
      exact (addAction_consistent consistent description).2 added
  exact ⟨consistent, fun description => (addAction_consistent consistent description).1⟩

theorem built_consistent_command :
    let command : Description := ⟨[lit "out"], [], ⟨[], [lit "cc"], false, false⟩,
      [(lit "a", .tree (lit "a")), (lit "b", .tree (lit "a"))]⟩
    let idOf : ArtifactDescription → Str
      | .action _ path => path
      | .tree id => id
      | _ => []
    Consistent idOf none (addAction idOf {} command).2 ∧ ∀ description,
      (addAction idOf (addAction idOf {} command).2 description).1 = true ↔
        Addable idOf (addAction idOf {} command).2 description :=
  built_consistent (.addAction .empty _ (by decide))

end Jst.Verif.GraphBuilding
