import Jst.Data.Loops
import Jst.Graph.Description
import Jst.Verif.ResultMaps
/-!
# Dumped graphs are built again

A reader of an action, a tree or an overlay restores the fields that were not written, as they have
their default values. In the result map every identifier has one object, so the readers of the whole
description yield the analysed objects: all of them, each once, and actions without their labels.
-/
namespace Jst.Verif.RebuiltGraphs

open Jst.Graph Jst.Target Jst.Sorting Jst.SortedMap Jst.Number Jst.ActionGraph
  Jst.Verif.ExpressionHash Jst.Verif.TargetResultRoundTrip Jst.Verif.ResultMaps

variable {hashType : HashType}

variable {actions : List ActionDescription} {treeOverlays : List TreeOverlay}
  {trees : List ActionGraph.Tree} {json : JsonValue}

/-! ## Inputs -/

theorem mapM_written {Item Written : Type} {write : Item → Written} {read : Written → Option Item}
    {list : List Item} (each : ∀ item ∈ list, read (write item) = some item) :
    (list.map write).mapM read = some list := by
  rw [Loops.mapM_eq_some, List.forall₂_map_left_iff, List.forall₂_same]
  exact each

theorem getStrings_stringsToJson (strings : List Str) :
    getStrings (stringsToJson strings) = some strings :=
  mapM_written fun _ _ => rfl

theorem getStringMap_stringMapToJson (strings : List (Str × Str)) :
    getStringMap (stringMapToJson strings) = some strings :=
  mapM_written fun _ _ => rfl

instance (artifact : ArtifactDescription) : Decidable (artifact.HasType hashType) :=
  match artifact with
  | .known hash _ _ => inferInstanceAs (Decidable (ArtifactDescription.isDigest hashType hash = true))
  | .localFile .. | .action .. | .tree _ | .treeOverlay _ => .isTrue trivial

/-- Inputs by their paths, in order, with digests of the hash type. -/
structure IsInputs (hashType : HashType) (inputs : List (Str × ArtifactDescription)) : Prop where
  ascending : Ascending inputs
  digests : ∀ input ∈ inputs, input.2.HasType hashType

theorem inputsToJson_eq {inputs : List (Str × ArtifactDescription)} (ascending : Ascending inputs) :
    inputsToJson inputs = .object (inputs.map fun input => (input.1, input.2.toJson)) := by
  have ordered : Ascending ([] ++ inputs.map fun input => (input.1, input.2.toJson)) :=
    mapValues_ascending ArtifactDescription.toJson ascending
  have stored := foldl_insert_ascending ordered
  rw [List.foldl_map, nil_append] at stored
  exact congrArg Json.object stored

theorem readInputs_written {inputs : List (Str × ArtifactDescription)}
    (isInputs : IsInputs hashType inputs) :
    readInputs hashType (inputs.map fun input => (input.1, input.2.toJson)) = some inputs := by
  have read := @mapM_written _ _ (fun input : Str × ArtifactDescription =>
      (input.1, input.2.toJson))
    (fun field => (ArtifactDescription.fromJson hashType field.2).map (field.1, ·)) inputs
    fun input member => by
      rw [ArtifactDescription.fromJson_toJson (isInputs.digests input member)]
      rfl
  have stored : emplaceAll inputs [] = inputs :=
    ext_find (emplaceAll_ascending inputs .nil) isInputs.ascending fun key => by
      rw [find_emplaceAll, find_nil, none_or]
  rw [readInputs, read, map_some, stored]

/-! ## Actions -/

theorem find_writeUnless (default : Bool) (key query : String) (value : JsonValue)
    (json : List (Str × JsonValue)) : find (lit query) (writeUnless default key value json) =
      if key = query ∧ default = false then some value else find (lit query) json := by
  unfold writeUnless
  cases default with
  | true => simp
  | false => simp [lit_inj]

/-- The fields of an action: those with default values are missing. -/
structure HasFields (description : ActionDescription) (json : JsonValue) : Prop where
  command : jsonField json "command" = some (stringsToJson description.action.command)
  output : jsonField json "output" = if description.outputFiles.isEmpty then none
    else some (stringsToJson description.outputFiles)
  outputDirs : jsonField json "output_dirs" = if description.outputDirs.isEmpty then none
    else some (stringsToJson description.outputDirs)
  input : jsonField json "input" = if description.inputs.isEmpty then none
    else some (inputsToJson description.inputs)
  env : jsonField json "env" = if description.action.env.isEmpty then none
    else some (stringMapToJson description.action.env)
  mayFail : jsonField json "may_fail" = description.action.mayFail.map .string
  noCache : jsonField json "no_cache" = if description.action.noCache then some (.bool true)
    else none
  timeoutScale : jsonField json "timeout scaling" =
    if description.action.timeoutScale = .ofNat 1 then none
    else some (.number (.double description.action.timeoutScale))
  cwd : jsonField json "cwd" = if description.action.cwd.isEmpty then none
    else some (.string description.action.cwd)
  executionProperties : jsonField json "execution properties" =
    if description.action.executionProperties.isEmpty then none
    else some (stringMapToJson description.action.executionProperties)
  label : jsonField json "label" = none

theorem hasFields_toJson (description : ActionDescription) :
    HasFields description description.toJson := by
  have first : ∀ key : String, find (lit key) [(lit "command",
      stringsToJson description.action.command)] =
        if "command" = key then some (stringsToJson description.action.command) else none := by
    intro key
    rw [find_cons, find_nil]
    simp only [lit_inj]
  constructor
  all_goals
    simp only [jsonField, ActionDescription.toJson, ActionDescription.toFields, find_writeUnless,
      first, String.reduceEq, false_and, true_and, if_true, if_false]
  · cases description.outputFiles.isEmpty <;> rfl
  · cases description.outputDirs.isEmpty <;> rfl
  · cases description.inputs.isEmpty <;> rfl
  · cases description.action.env.isEmpty <;> rfl
  · cases description.action.mayFail <;> rfl
  · cases description.action.noCache <;> rfl
  · by_cases isDefault : description.action.timeoutScale = .ofNat 1 <;> simp [isDefault]
  · cases description.action.cwd.isEmpty <;> rfl
  · cases description.action.executionProperties.isEmpty <;> rfl

theorem hasFields_action (includeOrigins : Bool) (action : ActionWithOrigin) :
    HasFields action.desc (action.toJson includeOrigins) := by
  have plain := hasFields_toJson action.desc
  cases includeOrigins with
  | false => exact plain
  | true =>
    -- no reader asks for the origins
    have same : ∀ key : String, "origins" ≠ key → jsonField (action.toJson true) key =
        jsonField action.desc.toJson key := by
      intro key other
      have fields : lit "origins" ≠ lit key := fun equal => other (lit_inj.mp equal)
      exact (find_insert _ _ _ _).trans (if_neg fields)
    constructor <;> rw [same _ (by decide)]
    exacts [plain.command, plain.output, plain.outputDirs, plain.input, plain.env, plain.mayFail,
      plain.noCache, plain.timeoutScale, plain.cwd, plain.executionProperties, plain.label]

/-- Actions as they are created: there are a command and outputs. -/
structure IsCreated (hashType : HashType) (description : ActionDescription) : Prop where
  command : description.action.command ≠ []
  outputs : description.outputFiles ≠ [] ∨ description.outputDirs ≠ []
  inputs : IsInputs hashType description.inputs

theorem read_strings {key : String} {strings : List Str}
    (written : jsonField json key = if strings.isEmpty then none else some (stringsToJson strings)) :
    ((jsonField json key).bind getStrings).getD [] = strings := by
  rw [written]
  cases strings with
  | nil => rfl
  | cons first rest =>
    rw [List.isEmpty_cons, if_neg false_ne_true, bind_some, getStrings_stringsToJson]
    rfl

theorem read_map {Item : Type} {key : String} {list : List Item} {field : Item → Str × JsonValue}
    (written : jsonField json key = if list.isEmpty then none else some (.object (list.map field))) :
    ActionDescription.readMap json key = some (list.map field) := by
  rw [ActionDescription.readMap, written]
  cases list <;> rfl

theorem read_text {key : String} {text : Str}
    (written : jsonField json key = if text.isEmpty then none else some (.string text)) :
    ActionDescription.readText json key = some text := by
  rw [ActionDescription.readText, written]
  cases text <;> rfl

theorem fromJson_of_hasFields {description : ActionDescription}
    (isCreated : IsCreated hashType description) (fields : HasFields description json) :
    ActionDescription.fromJson hashType description.action.id json =
      some (description.withLabel []) := by
  have outputs := read_strings fields.output
  have outputDirs := read_strings fields.outputDirs
  have command : ((jsonField json "command").bind getStrings).getD [] =
      description.action.command := by
    rw [fields.command, bind_some, getStrings_stringsToJson, getD_some]
  have label : ActionDescription.readText json "label" = some [] := by
    rw [ActionDescription.readText, fields.label]
  have cwd := read_text fields.cwd
  have input : ActionDescription.readMap json "input" =
      some (description.inputs.map fun input => (input.1, input.2.toJson)) := by
    refine read_map ?_
    rw [fields.input, inputsToJson_eq isCreated.inputs.ascending]
  have env := read_map fields.env
  have mayFail : ActionDescription.readMayFail json = some description.action.mayFail := by
    rw [ActionDescription.readMayFail, fields.mayFail]
    cases description.action.mayFail <;> rfl
  have noCache : ActionDescription.readNoCache json = some description.action.noCache := by
    rw [ActionDescription.readNoCache, fields.noCache]
    cases description.action.noCache <;> rfl
  have timeoutScale : ActionDescription.readTimeoutScale json =
      some description.action.timeoutScale := by
    rw [ActionDescription.readTimeoutScale, fields.timeoutScale]
    split
    · next missing =>
      split at missing
      · next isDefault => rw [isDefault]
      · cases missing
    · next value found =>
      split at found
      · cases found
      · cases found
        rfl
  have executionProperties := read_map fields.executionProperties
  have someOutput : ¬(description.outputFiles.isEmpty && description.outputDirs.isEmpty) = true := by
    rw [and_eq_true, List.isEmpty_iff, List.isEmpty_iff, not_and_or]
    exact isCreated.outputs
  have someCommand : ¬description.action.command.isEmpty = true := by
    rw [List.isEmpty_iff]
    exact isCreated.command
  rw [ActionDescription.fromJson, outputs, outputDirs, command, if_neg someOutput,
    if_neg someCommand, label, cwd, input, env, mayFail, noCache, timeoutScale,
    executionProperties]
  simp only [bind_eq_bind, bind_some, readInputs_written isCreated.inputs]
  have strings : ∀ map : List (Str × Str), getStringMap (.object (map.map fun entry =>
      (entry.1, .string entry.2))) = some map := getStringMap_stringMapToJson
  rw [strings, strings]
  rfl

/-! ## Trees and overlays -/

theorem fromJson_tree {tree : ActionGraph.Tree} (isInputs : IsInputs hashType tree.inputs) :
    Tree.fromJson hashType tree.id tree.toJson = some tree := by
  rw [Tree.fromJson, Tree.toJson, inputsToJson_eq isInputs.ascending, items,
    readInputs_written isInputs, map_some]

theorem mapM_items {Item : Type} (read : JsonValue → Option Item) (values : List JsonValue) :
    (items (.array values)).mapM (fun entry => read entry.2) = values.mapM read := by
  have entries : (items (.array values)).map snd = values := by
    rw [items, map_map]
    exact List.zipIdx_map_fst 0 values
  calc (items (.array values)).mapM (fun entry => read entry.2)
    _ = ((items (.array values)).map snd).mapM read := List.mapM_map.symm
    _ = values.mapM read := by rw [entries]

theorem fromJson_overlay {overlay : TreeOverlay}
    (digests : ∀ tree ∈ overlay.trees, tree.HasType hashType) :
    TreeOverlay.fromJson hashType overlay.id overlay.toJson = some overlay := by
  have disjoint : jsonField overlay.toJson "disjoint" = some (.bool overlay.disjoint) := rfl
  have trees : jsonField overlay.toJson "trees" =
      some (.array (overlay.trees.map ArtifactDescription.toJson)) := rfl
  have read := mapM_written fun tree member =>
    ArtifactDescription.fromJson_toJson (digests tree member)
  rw [TreeOverlay.fromJson, disjoint, trees]
  simp only [bind_eq_bind, bind_some, mapM_items, read]

theorem shown_inputsToJson (doubleText : Double → Str)
    {inputs : List (Str × ArtifactDescription)} (ascending : Ascending inputs) :
    Json.shown (numberText doubleText) (inputsToJson inputs) = inputsToJson inputs := by
  rw [inputsToJson_eq ascending, Json.shown, shownFields_eq_map, map_map]
  refine congrArg Json.object (map_congr_left fun input _ => ?_)
  rw [comp_apply, ArtifactDescription.shown_toJson]

theorem shown_overlay (doubleText : Double → Str) (overlay : TreeOverlay) :
    Json.shown (numberText doubleText) overlay.toJson = overlay.toJson := by
  have trees : (overlay.trees.map ArtifactDescription.toJson).map
      (Json.shown (numberText doubleText)) = overlay.trees.map ArtifactDescription.toJson := by
    rw [map_map]
    exact map_congr_left fun tree _ => ArtifactDescription.shown_toJson doubleText tree
  simp only [TreeOverlay.toJson, Json.shown, Json.shownFields, shownItems_eq_map, trees]

section Identifiers

variable {doubleText : Double → Str} {sha : Str → Str}

theorem tree_of_id (collisionFree : CollisionFree sha) (doubles : IsDoubleText doubleText)
    {tree other : ActionGraph.Tree} (made : Tree.ofInputs doubleText sha tree.inputs = some tree)
    (otherMade : Tree.ofInputs doubleText sha other.inputs = some other)
    (ascending : Ascending tree.inputs) (otherAscending : Ascending other.inputs)
    (sameId : tree.id = other.id) : tree = other := by
  have identified := computeId_tree made
  have identified' := computeId_tree otherMade
  have shows := shown_of_computeId collisionFree doubles identified (sameId ▸ identified')
  rw [Tree.toJson, Tree.toJson, shown_inputsToJson doubleText ascending,
    shown_inputsToJson doubleText otherAscending, inputsToJson_eq ascending, inputsToJson_eq otherAscending] at shows
  have injective : Function.Injective fun input : Str × ArtifactDescription =>
      (input.1, input.2.toJson) := by
    rintro ⟨path, artifact⟩ ⟨path', artifact'⟩ same
    obtain ⟨paths, artifacts⟩ := Prod.mk.inj same
    exact Prod.ext paths (ArtifactDescription.toJson_injective artifacts)
  have inputs := List.map_injective_iff.mpr injective (Json.object.inj shows)
  cases tree
  cases other
  exact congrArg₂ _ sameId inputs

theorem overlay_of_id (collisionFree : CollisionFree sha) (doubles : IsDoubleText doubleText)
    {overlay other : TreeOverlay}
    (made : TreeOverlay.ofTrees doubleText sha overlay.trees overlay.disjoint = some overlay)
    (otherMade : TreeOverlay.ofTrees doubleText sha other.trees other.disjoint = some other)
    (sameId : overlay.id = other.id) : overlay = other := by
  have identified := computeId_overlay made
  have identified' := computeId_overlay otherMade
  have shows := shown_of_computeId collisionFree doubles identified (sameId ▸ identified')
  rw [shown_overlay, shown_overlay] at shows
  simp only [TreeOverlay.toJson, Json.object.injEq, List.cons.injEq, Prod.mk.injEq, true_and,
    and_true, Json.bool.injEq, Json.array.injEq] at shows
  have trees := List.map_injective_iff.mpr (fun _ _ => ArtifactDescription.toJson_injective) shows.2
  have disjoint := shows.1
  cases overlay
  cases other
  rw [TreeOverlay.mk.injEq]
  exact ⟨sameId, trees, disjoint⟩

end Identifiers

/-! ## Reading all objects of a kind -/

theorem readObjects_lists {Object : Type} {id : Object → Str} {occurs : Object → Prop}
    {written : Object → JsonValue → Prop} {fields : List (Str × JsonValue)}
    {fromJson : Str → JsonValue → Option Object} {plain : Object → Object}
    (lists : Lists id occurs written fields) (sameId : ∀ object, id (plain object) = id object)
    (reads : ∀ object json, occurs object → written object json →
      fromJson (id object) json = some (plain object))
    (agree : ∀ object other, occurs object → occurs other → id object = id other →
      plain object = plain other) :
    ∃ objects, readObjects fromJson (.object fields) = some objects ∧ Ascends id objects ∧
      ∀ object, object ∈ objects ↔ ∃ original, occurs original ∧ object = plain original := by
  -- a field is read as the plain form of what it was written from
  have each : ∀ field ∈ fields, ∃ original, occurs original ∧ id original = field.1 ∧
      fromJson field.1 field.2 = some (plain original) := by
    intro field member
    obtain ⟨original, isOriginal, isId, isWritten⟩ := lists.sound field member
    exact ⟨original, isOriginal, isId, isId ▸ reads original field.2 isOriginal isWritten⟩
  obtain ⟨objects, read⟩ := Loops.exists_mapM fun field member =>
    ⟨_, (each field member).choose_spec.2.2⟩
  refine ⟨objects, read, ?_, fun object => ⟨fun inside => ?_, ?_⟩⟩
  · have keys : fields.map fst = objects.map id := by
      have calls := (List.forall₂_and_left _ _).mpr ⟨each, Loops.mapM_eq_some.mp read⟩
      rw [← List.forall₂_eq_eq_eq, List.forall₂_map_left_iff, List.forall₂_map_right_iff]
      refine calls.imp fun field object both => ?_
      obtain ⟨⟨original, -, isId, isPlain⟩, called⟩ := both
      rw [some.inj (called.symm.trans isPlain), sameId, isId]
    have ascending : (fields.map fst).Pairwise (· < ·) := pairwise_map.mpr lists.ascending
    rw [keys] at ascending
    exact pairwise_map.mp ascending
  · obtain ⟨field, member, called⟩ := Loops.exists_of_mem_mapM read inside
    obtain ⟨original, isOriginal, -, isPlain⟩ := each field member
    exact ⟨original, isOriginal, some.inj (called.symm.trans isPlain)⟩
  · rintro ⟨original, isOriginal, rfl⟩
    obtain ⟨json, member⟩ := lists.complete original isOriginal
    obtain ⟨other, isOther, isId, isPlain⟩ := each _ member
    obtain ⟨result, inside, called⟩ := Loops.mem_of_mapM read member
    have same := some.inj (called.symm.trans isPlain)
    rw [agree original other isOriginal isOther isId.symm, ← same]
    exact inside

/-! ## Graphs -/

/-- An object of a graph. -/
inductive GraphObject where
  | action (description : ActionDescription)
  | tree (tree : ActionGraph.Tree)
  | treeOverlay (overlay : TreeOverlay)

/-- What identifies an object: its kind and its identifier. -/
inductive ObjectKey where
  | action (id : Str)
  | tree (id : Str)
  | treeOverlay (id : Str)

namespace GraphObject

/-- The artifacts that an object needs. -/
def inputs : GraphObject → List ArtifactDescription
  | action description => description.inputs.map snd
  | tree made => made.inputs.map snd
  | treeOverlay overlay => overlay.trees

/-- The artifacts that an object resolves. -/
def outputs : GraphObject → List ArtifactDescription
  | action description =>
    (description.outputFiles ++ description.outputDirs).map (.action description.action.id)
  | tree made => [.tree made.id]
  | treeOverlay overlay => [.treeOverlay overlay.id]

/-- The key of an object. -/
def key : GraphObject → ObjectKey
  | action description => .action description.action.id
  | tree made => .tree made.id
  | treeOverlay overlay => .treeOverlay overlay.id

end GraphObject

/-- The key of the object that resolves an artifact; sources have none. -/
def resolverKey : ArtifactDescription → Option ObjectKey
  | .localFile .. | .known .. => none
  | .action id _ => some (.action id)
  | .tree id => some (.tree id)
  | .treeOverlay id => some (.treeOverlay id)

/-- Objects of all kinds. -/
def allObjects (actions : List ActionDescription) (trees : List ActionGraph.Tree)
    (treeOverlays : List TreeOverlay) : List GraphObject :=
  actions.map .action ++ trees.map .tree ++ treeOverlays.map .treeOverlay

/-- The objects that are read. -/
def readOf (graph : GraphDescription) : List GraphObject :=
  allObjects graph.actions graph.trees graph.treeOverlays

theorem resolverKey_of_mem {object : GraphObject} {reference : ArtifactDescription}
    (resolves : reference ∈ object.outputs) : resolverKey reference = some object.key := by
  cases object with
  | action description =>
    obtain ⟨path, -, rfl⟩ := mem_map.mp resolves
    rfl
  | tree made =>
    rw [mem_singleton.mp resolves]
    rfl
  | treeOverlay overlay =>
    rw [mem_singleton.mp resolves]
    rfl

theorem action_mem {description : ActionDescription} :
    .action description ∈ allObjects actions trees treeOverlays ↔ description ∈ actions := by
  simp [allObjects]

theorem tree_mem {tree : ActionGraph.Tree} :
    .tree tree ∈ allObjects actions trees treeOverlays ↔ tree ∈ trees := by
  simp [allObjects]

theorem overlay_mem {overlay : TreeOverlay} :
    .treeOverlay overlay ∈ allObjects actions trees treeOverlays ↔ overlay ∈ treeOverlays := by
  simp [allObjects]

theorem nodup_keys (actionIds : (actions.map fun action => action.action.id).Nodup)
    (treeIds : (trees.map ActionGraph.Tree.id).Nodup)
    (overlayIds : (treeOverlays.map TreeOverlay.id).Nodup) :
    ((allObjects actions trees treeOverlays).map GraphObject.key).Nodup := by
  have kinds : (allObjects actions trees treeOverlays).map GraphObject.key =
      (actions.map fun action => action.action.id).map .action ++
        (trees.map ActionGraph.Tree.id).map .tree ++
        (treeOverlays.map TreeOverlay.id).map .treeOverlay := by
    simp only [allObjects, map_append, map_map]
    rfl
  rw [kinds]
  refine List.Nodup.append (List.Nodup.append ?_ ?_ ?_) ?_ ?_
  · exact actionIds.map fun _ _ => ObjectKey.action.inj
  · exact treeIds.map fun _ _ => ObjectKey.tree.inj
  · intro key inside inside'
    obtain ⟨id, -, rfl⟩ := mem_map.mp inside
    obtain ⟨id', -, same⟩ := mem_map.mp inside'
    cases same
  · exact overlayIds.map fun _ _ => ObjectKey.treeOverlay.inj
  · intro key inside inside'
    obtain ⟨id, -, rfl⟩ := mem_map.mp inside'
    cases mem_append.mp inside with
    | inl isAction =>
      obtain ⟨id', -, same⟩ := mem_map.mp isAction
      cases same
    | inr isTree =>
      obtain ⟨id', -, same⟩ := mem_map.mp isTree
      cases same

/-! ## The result -/

section Results

variable {doubleText : Double → Str} {sha : Str → Str} {additions : List (Addition doubleText sha)}

/-- Targets as the analysis makes them. -/
structure Analysed (hashType : HashType) (additions : List (Addition doubleText sha)) : Prop where
  consistent : Consistent additions
  actions : ∀ addition ∈ additions, ∀ action ∈ addition.2.actions, IsCreated hashType action
  trees : ∀ addition ∈ additions, ∀ tree ∈ addition.2.trees, IsInputs hashType tree.inputs
  treeOverlays : ∀ addition ∈ additions, ∀ overlay ∈ addition.2.treeOverlays,
    ∀ tree ∈ overlay.trees, tree.HasType hashType

/-- The objects of a target; their actions have no labels. -/
def objectsOf (result : AnalysedTarget doubleText sha) : List GraphObject :=
  allObjects (result.actions.map (·.withLabel [])) result.trees result.treeOverlays

/-- Exactly the analysed blobs and objects are read, each once, and what some analysed object
resolves is resolved by exactly one that is read. -/
structure Rebuilds (additions : List (Addition doubleText sha)) (graph : GraphDescription) :
    Prop where
  blobs : ∀ blob, blob ∈ graph.blobs ↔ ∃ addition ∈ additions, blob ∈ addition.2.blobs
  objects : ∀ object, object ∈ readOf graph ↔ ∃ addition ∈ additions, object ∈ objectsOf addition.2
  once : graph.blobs.Nodup ∧ (readOf graph).Nodup
  resolved : ∀ reference, (∃ addition ∈ additions, ∃ object ∈ objectsOf addition.2,
      reference ∈ object.outputs) ↔
    ∃! object, object ∈ readOf graph ∧ reference ∈ object.outputs

/-- Every artifact that an object needs is a source or is resolved by an object. -/
def Closed (additions : List (Addition doubleText sha)) : Prop :=
  ∀ addition ∈ additions, ∀ object ∈ objectsOf addition.2, ∀ reference ∈ object.inputs,
    (resolverKey reference).isSome → ∃ addition ∈ additions, ∃ other ∈ objectsOf addition.2,
      reference ∈ other.outputs

theorem resolved_of_keys {objects : List GraphObject} (keys : (objects.map GraphObject.key).Nodup)
    {object : GraphObject} {reference : ArtifactDescription} (inside : object ∈ objects)
    (resolves : reference ∈ object.outputs) :
    ∃! object, object ∈ objects ∧ reference ∈ object.outputs := by
  refine ⟨object, ⟨inside, resolves⟩, ?_⟩
  rintro other ⟨inside', resolves'⟩
  have same := (resolverKey_of_mem resolves').symm.trans (resolverKey_of_mem resolves)
  exact List.inj_on_of_nodup_map keys inside' inside (some.inj same)

/-- The graph of the result map can be built again: all readers succeed and yield the analysed
blobs, actions, trees and overlays with their identifiers. If these are closed, every reference
among the inputs of what is read is resolved by exactly one object that is read. -/
theorem dumped_graph_rebuilt (collisionFree : CollisionFree sha) (doubles : IsDoubleText doubleText)
    (analysed : Analysed hashType additions) (library : Library doubleText sha) {width : Nat}
    (some' : 0 < width) (includeOrigins : Bool) :
    ∃ graph, readGraphDescription hashType
        (library.toJson includeOrigins (library.addAll width additions)) = some graph ∧
      Rebuilds additions graph ∧
      (Closed additions → ∀ object ∈ readOf graph, ∀ reference ∈ object.inputs,
        (resolverKey reference).isSome →
        ∃! other, other ∈ readOf graph ∧ reference ∈ other.outputs) := by
  obtain ⟨⟨actionFields, foundActions, listsActions⟩, ⟨blobs, foundBlobs, blobsAscend, memBlobs⟩,
    ⟨treeFields, foundTrees, listsTrees⟩, overlayFields, foundOverlays, listsOverlays⟩ :=
    lists_toJson library some' analysed.consistent includeOrigins
  obtain ⟨actions, readActions, actionsAscend, memActions⟩ :=
    @readObjects_lists _ _ _ _ _ (ActionDescription.fromJson hashType) (·.withLabel []) listsActions
      (fun _ => rfl) (fun action json occurs written => by
        obtain ⟨addition, added, member⟩ := occurs
        obtain ⟨origins, -, rfl⟩ := written
        exact fromJson_of_hasFields (analysed.actions addition added action member)
          (hasFields_action includeOrigins ⟨action, originsToJson origins⟩))
      (fun action other occurs occurs' sameId => by
        obtain ⟨addition, added, member⟩ := occurs
        obtain ⟨addition', added', member'⟩ := occurs'
        exact analysed.consistent.actions addition added action member addition' added' other
          member' sameId)
  obtain ⟨trees, readTrees, treesAscend, memTrees⟩ :=
    @readObjects_lists _ _ _ _ _ (Tree.fromJson hashType) (fun tree => tree) listsTrees
      (fun _ => rfl) (fun tree json occurs written => by
        obtain ⟨addition, added, member⟩ := occurs
        rw [written]
        exact fromJson_tree (analysed.trees addition added tree member))
      (fun tree other occurs occurs' sameId => by
        obtain ⟨addition, added, member⟩ := occurs
        obtain ⟨addition', added', member'⟩ := occurs'
        exact tree_of_id collisionFree doubles (addition.2.treesMade tree member)
          (addition'.2.treesMade other member') (analysed.trees addition added tree member).ascending
          (analysed.trees addition' added' other member').ascending sameId)
  obtain ⟨overlays, readOverlays, overlaysAscend, memOverlays⟩ :=
    @readObjects_lists _ _ _ _ _ (TreeOverlay.fromJson hashType) (fun overlay => overlay)
      listsOverlays (fun _ => rfl) (fun overlay json occurs written => by
        obtain ⟨addition, added, member⟩ := occurs
        rw [written]
        exact fromJson_overlay (analysed.treeOverlays addition added overlay member))
      (fun overlay other occurs occurs' sameId => by
        obtain ⟨addition, added, member⟩ := occurs
        obtain ⟨addition', added', member'⟩ := occurs'
        exact overlay_of_id collisionFree doubles (addition.2.overlaysMade overlay member)
          (addition'.2.overlaysMade other member') sameId)
  have once : ∀ {Object : Type} {id : Object → Str} {objects : List Object}, Ascends id objects →
      (objects.map id).Nodup := fun ascends =>
    pairwise_map.mpr (ascends.imp fun less => less.ne)
  have keys := nodup_keys (once actionsAscend) (once treesAscend) (once overlaysAscend)
  have objects : ∀ object, object ∈ readOf ⟨blobs, actions, trees, overlays⟩ ↔
      ∃ addition ∈ additions, object ∈ objectsOf addition.2 := by
    intro object
    cases object with
    | action description =>
      simp only [readOf, objectsOf, action_mem, memActions, mem_map]
      constructor
      · rintro ⟨original, ⟨addition, added, member⟩, rfl⟩
        exact ⟨addition, added, original, member, rfl⟩
      · rintro ⟨addition, added, original, member, rfl⟩
        exact ⟨original, ⟨addition, added, member⟩, rfl⟩
    | tree tree =>
      simp only [readOf, objectsOf, tree_mem, memTrees, exists_eq_right']
    | treeOverlay overlay =>
      simp only [readOf, objectsOf, overlay_mem, memOverlays, exists_eq_right']
  have resolved : ∀ reference, (∃ addition ∈ additions, ∃ object ∈ objectsOf addition.2,
      reference ∈ object.outputs) → ∃! object, object ∈ readOf ⟨blobs, actions, trees, overlays⟩ ∧
        reference ∈ object.outputs := by
    rintro reference ⟨addition, added, object, member, resolves⟩
    exact resolved_of_keys keys ((objects object).mpr ⟨addition, added, member⟩) resolves
  refine ⟨⟨blobs, actions, trees, overlays⟩, ?_, ⟨memBlobs, objects,
    ⟨blobsAscend.imp fun less => less.ne, keys.of_map⟩, fun reference => ⟨resolved reference, ?_⟩⟩, ?_⟩
  · rw [readGraphDescription, foundBlobs, foundTrees, foundActions, foundOverlays]
    simp only [bind_eq_bind, bind_some, getStrings_stringsToJson, readActions,
      readTrees, readOverlays]
  · rintro ⟨object, ⟨inside, resolves⟩, -⟩
    obtain ⟨addition, added, member⟩ := (objects object).mp inside
    exact ⟨addition, added, object, member, resolves⟩
  · intro closed object inside reference needed isResolved
    obtain ⟨addition, added, member⟩ := (objects object).mp inside
    exact resolved reference (closed addition added object member reference needed isResolved)

end Results

/-! ## An example -/

/-- An action with a source and a known library. -/
def linking : ActionDescription where
  outputFiles := [lit "bin"]
  outputDirs := []
  action :=
    { id := lit "link", command := [lit "ld"], label := lit "linking", cwd := [],
      env := [(lit "PATH", lit "/bin")], mayFail := none, noCache := true,
      timeoutScale := .ofNat 2, executionProperties := [] }
  inputs := [(lit "lib.a", .known (replicate 40 97) 7 .file),
    (lit "main.c", .localFile (lit "main.c") (lit "root"))]

/-- The inputs of the tree of the example. -/
def installed : List (Str × ArtifactDescription) :=
  [(lit "bin", .action (lit "link") (lit "bin"))]

/-- The tree of what is linked. -/
def installation : ActionGraph.Tree where
  id := (computeId bitsText code "TREE:" (inputsToJson installed)).getD []
  inputs := installed

/-- An overlay of the tree alone. -/
def overlay : TreeOverlay where
  id := (computeId bitsText code "TREE_OVERLAY:"
    (TreeOverlay.toJson ⟨[], [.tree installation.id], true⟩)).getD []
  trees := [.tree installation.id]
  disjoint := true

/-- A target with all kinds of objects. -/
def program : AnalysedTarget bitsText code where
  actions := [linking]
  blobs := [lit "blob"]
  trees := [installation]
  treeOverlays := [overlay]
  treesMade _ member := by
    rw [mem_singleton.mp member]
    decide +kernel
  overlaysMade _ member := by
    rw [mem_singleton.mp member]
    decide +kernel

theorem dumped_graph_rebuilt_program : ∃ graph, readGraphDescription .gitSHA1
      ((listing false).toJson true ((listing false).addAll 3 [(plainTarget "a", program)])) =
        some graph ∧
    Rebuilds [(plainTarget "a", program)] graph ∧
    ∀ object ∈ readOf graph, ∀ reference ∈ object.inputs, (resolverKey reference).isSome →
      ∃! other, other ∈ readOf graph ∧ reference ∈ other.outputs := by
  have analysed : Analysed .gitSHA1 [(plainTarget "a", program)] := by
    refine ⟨⟨fun addition inside other inside' _ => ?_,
      fun addition inside action member other inside' action' member' _ => ?_⟩,
      fun addition inside action member => ?_, fun addition inside tree member => ?_,
      fun addition inside overlay member => ?_⟩
    · rw [mem_singleton.mp inside, mem_singleton.mp inside']
    · cases mem_singleton.mp inside
      cases mem_singleton.mp inside'
      rw [mem_singleton.mp member, mem_singleton.mp member']
    · cases mem_singleton.mp inside
      rw [mem_singleton.mp member]
      exact ⟨by decide, by decide, by decide, by decide⟩
    · cases mem_singleton.mp inside
      rw [mem_singleton.mp member]
      exact ⟨by decide, by decide⟩
    · cases mem_singleton.mp inside
      rw [mem_singleton.mp member]
      decide
  have closed : Closed [(plainTarget "a", program)] := by
    have resolves : ∀ object ∈ objectsOf program, ∀ reference ∈ object.inputs,
        (resolverKey reference).isSome → ∃ other ∈ objectsOf program, reference ∈ other.outputs := by
      decide +kernel
    intro addition inside object member reference needed isResolved
    cases mem_singleton.mp inside
    exact ⟨_, mem_singleton_self _, resolves object member reference needed isResolved⟩
  have some' : 0 < 3 := by decide
  obtain ⟨graph, read, rebuilds, resolved⟩ := dumped_graph_rebuilt
    (digestsOf_collisionFree (by decide)) bitsText_isDoubleText analysed (listing false) some' true
  exact ⟨graph, read, rebuilds, resolved closed⟩

end Jst.Verif.RebuiltGraphs
