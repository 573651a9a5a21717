import Jst.Target.Stages
import Jst.Utils.NormalPath
/-!
# Trees of stages

A tree is filled under the normal paths of a stage, and the first artifact at a path stays. Whether
two entries clash is looked up in the locations as they are spelled. So a tree has everything in the
stage exactly if no two entries clash, or the clash shows in the spelling.
-/
namespace Jst.Verif.StageTrees

open Jst.SortedMap Jst.Path Jst.Target

variable {Artifact : Type}

/-- The tree has the artifact of every entry of the stage under its normal path, and nothing else.
-/
def IsTreeOf (stage : Stage Artifact) (content : TreeContent Artifact) : Prop :=
  ∀ path artifact, find path content = some artifact ↔
    ∃ key, (key, artifact) ∈ stage.entries ∧ toNormalPath key = path

/-- Two entries of a stage cannot both be in a tree: different artifacts have one normal path, or
one normal path stands above another. -/
def Clash (stage : Stage Artifact) : Prop :=
  ∃ left ∈ stage.entries, ∃ right ∈ stage.entries,
    (toNormalPath left.1 = toNormalPath right.1 ∧ left.2 ≠ right.2) ∨ Ancestor left.1 right.1

/-- Nothing is dropped: there is no tree, or it has everything and nothing in the stage clashes. -/
def NothingDropped (stage : Stage Artifact) : Except TreeError (TreeContent Artifact) → Prop
  | .error _ => True
  | .ok content => IsTreeOf stage content ∧ ¬Clash stage

/-- A path is reported, given the number of paths and the elements of those before it. -/
def Reported (size : Nat) (blocked : List (List Str)) (path : Str) : Prop :=
  (path = here ∧ 1 < size) ∨ isAbsolute path = true ∨ (elements path).head? = some up ∨
    elements path ∈ blocked ∨ ∃ parent ∈ parents path, elements parent ∈ elements path :: blocked

/-- A clash shows in the spelling of the paths: `.` is not the only path, a path is absolute or
starts with `..`, or a path or one of its parents is spelled like an earlier path, up to repeated
slashes. -/
def Visible (keys : List Str) : Prop :=
  ∃ before path after, keys = before ++ path :: after ∧
    Reported keys.length (before.map elements) path

section Conflicts

theorem treeConflictFrom_cons (size : Nat) (blocked : List (List Str)) (path : Str)
    (rest : List Str) : (treeConflictFrom size blocked (path :: rest)).isSome ↔
      Reported size blocked path ∨ (treeConflictFrom size (elements path :: blocked) rest).isSome := by
  rw [treeConflictFrom]
  by_cases isHere : path = here ∧ 1 < size
  · rw [if_pos isHere]
    exact ⟨fun _ => .inl (.inl isHere), fun _ => rfl⟩
  rw [if_neg isHere]
  by_cases absolute : isAbsolute path = true
  · rw [if_pos absolute]
    exact ⟨fun _ => .inl (.inr (.inl absolute)), fun _ => rfl⟩
  rw [if_neg absolute]
  by_cases upwards : (elements path).head? = some up
  · rw [if_pos upwards]
    exact ⟨fun _ => .inl (.inr (.inr (.inl upwards))), fun _ => rfl⟩
  rw [if_neg upwards]
  by_cases repeated : elements path ∈ blocked
  · rw [if_pos repeated]
    exact ⟨fun _ => .inl (.inr (.inr (.inr (.inl repeated)))), fun _ => rfl⟩
  rw [if_neg repeated]
  cases found : (parents path).find? fun parent => elements parent ∈ elements path :: blocked with
  | some parent =>
    have member := List.mem_of_find?_eq_some found
    have inside := List.find?_some found
    refine ⟨fun _ => .inl (.inr (.inr (.inr (.inr ⟨parent, member, ?_⟩)))), fun _ => rfl⟩
    exact of_decide_eq_true inside
  | none =>
    have none' := List.find?_eq_none.mp found
    refine ⟨.inr, fun holds => ?_⟩
    cases holds with
    | inr later => exact later
    | inl reported =>
      rcases reported with isHere' | absolute' | upwards' | repeated' | ⟨parent, member, inside⟩
      · exact absurd isHere' isHere
      · exact absurd absolute' absolute
      · exact absurd upwards' upwards
      · exact absurd repeated' repeated
      · exact absurd (decide_eq_true inside) (none' parent member)

theorem Reported.congr {size : Nat} {blocked blocked' : List (List Str)} {path : Str}
    (same : ∀ names, names ∈ blocked ↔ names ∈ blocked') (reported : Reported size blocked path) :
    Reported size blocked' path := by
  rcases reported with isHere | absolute | upwards | repeated | ⟨parent, member, inside⟩
  · exact .inl isHere
  · exact .inr (.inl absolute)
  · exact .inr (.inr (.inl upwards))
  · exact .inr (.inr (.inr (.inl ((same _).mp repeated))))
  · refine .inr (.inr (.inr (.inr ⟨parent, member, ?_⟩)))
    rw [mem_cons] at inside ⊢
    exact inside.imp_right (same _).mp

theorem treeConflictFrom_isSome (size : Nat) (blocked : List (List Str)) (keys : List Str) :
    (treeConflictFrom size blocked keys).isSome ↔ ∃ before path after,
      keys = before ++ path :: after ∧ Reported size (before.map elements ++ blocked) path := by
  induction keys generalizing blocked with
  | nil =>
    refine ⟨fun nothing => absurd nothing false_ne_true, ?_⟩
    rintro ⟨before, path, after, split, -⟩
    exact absurd split.symm (by simp)
  | cons key rest step =>
    rw [treeConflictFrom_cons, step]
    have moved : ∀ (before : List Str) names, names ∈ before.map elements ++ elements key :: blocked ↔
        names ∈ (key :: before).map elements ++ blocked := by
      intro before names
      simp only [mem_append, mem_cons, map_cons]
      tauto
    constructor
    · rintro (reported | ⟨before, path, after, rfl, reported⟩)
      · exact ⟨[], key, rest, rfl, reported⟩
      · exact ⟨key :: before, path, after, rfl, reported.congr (moved before)⟩
    · rintro ⟨before, path, after, split, reported⟩
      cases before with
      | nil =>
        cases split
        exact .inl reported
      | cons first before =>
        cases split
        exact .inr ⟨before, path, after, rfl, reported.congr fun names => (moved before names).symm⟩

theorem treeConflict_isSome (keys : List Str) : (treeConflict keys).isSome ↔ Visible keys := by
  rw [treeConflict, treeConflictFrom_isSome]
  simp only [Visible, append_nil]

end Conflicts

section Trees

theorem find_treeContent (stage : Stage Artifact) (path : Str) : find path (treeContent stage.entries) =
    find path (stage.entries.map fun entry => (toNormalPath entry.1, entry.2)) := by
  have whole : treeContent stage.entries =
      emplaceAll (stage.entries.map fun entry => (toNormalPath entry.1, entry.2)) [] := by
    rw [emplaceAll, List.foldl_map]
    rfl
  rw [whole, find_emplaceAll]
  rfl

theorem isTreeOf_treeContent {stage : Stage Artifact} (noClash : ¬Clash stage) :
    IsTreeOf stage (treeContent stage.entries) := by
  intro path artifact
  rw [find_treeContent]
  constructor
  · intro found
    obtain ⟨⟨key, other⟩, member, same⟩ := mem_map.mp (mem_of_find found)
    obtain ⟨normal, rfl⟩ := Prod.mk.inj same
    exact ⟨key, member, normal⟩
  · rintro ⟨key, member, rfl⟩
    refine find_of_unique (mem_map.mpr ⟨_, member, rfl⟩) fun other inside => ?_
    obtain ⟨⟨key', _⟩, member', same⟩ := mem_map.mp inside
    obtain ⟨normal, rfl⟩ := Prod.mk.inj same
    by_contra differ
    exact noClash ⟨_, member', _, member, .inl ⟨normal, differ⟩⟩

theorem nothingDropped_iff (stage : Stage Artifact) :
    NothingDropped stage (checkedTree stage.keys (treeContent stage.entries)) ↔
      (Clash stage → Visible stage.keys) := by
  rw [← treeConflict_isSome, checkedTree]
  cases treeConflict stage.keys with
  | some subtree => exact ⟨fun _ _ => rfl, fun _ => trivial⟩
  | none =>
    constructor
    · intro holds clash
      exact absurd clash holds.2
    · intro seen
      have noClash : ¬Clash stage := fun clash => absurd (seen clash) false_ne_true
      exact ⟨isTreeOf_treeContent noClash, noClash⟩

/-- A map in which all values are artifacts. -/
def ofArtifacts (stage : Stage Artifact) : Stage (Option Artifact) :=
  ⟨stage.entries.map fun entry => (entry.1, some entry.2), mapValues_ascending some stage.ordered⟩

theorem exprToTree_ofArtifacts (stage : Stage Artifact) : exprToTree (some (ofArtifacts stage)) =
    checkedTree stage.keys (treeContent stage.entries) := by
  have artifacts : ∀ entries : List (Str × Artifact),
      artifactsOf (entries.map fun entry => (entry.1, some entry.2)) = .ok entries := by
    intro entries
    induction entries with
    | nil => rfl
    | cons entry rest step =>
      rw [map_cons, artifactsOf, step]
      rfl
  have keys : (ofArtifacts stage).keys = stage.keys := by
    simp only [Stage.keys, ofArtifacts, map_map]
    rfl
  show (artifactsOf (stage.entries.map fun entry => (entry.1, some entry.2)) >>= fun artifacts =>
    checkedTree (ofArtifacts stage).keys (treeContent artifacts)) = _
  rw [artifacts, keys]
  rfl

/-- The stage of a tree target: every dependency is laid upon those before it. -/
def mergedStage (dependencies : List (Analysed Artifact)) : Stage Artifact :=
  dependencies.foldl (fun stage dependency => stage.overlay dependency.toStage) .empty

theorem collectStage_eq [DecidableEq Artifact] {stage last : Stage Artifact}
    {dependencies : List (Analysed Artifact)} (collected : collectStage stage dependencies = .ok last) :
    last = dependencies.foldl (fun stage dependency => stage.overlay dependency.toStage) stage := by
  induction dependencies generalizing stage with
  | nil => exact (ok.inj collected).symm
  | cons dependency dependencies step =>
    rw [collectStage] at collected
    cases conflict : stage.findConflictingDuplicate dependency.toStage with
    | some path =>
      rw [conflict] at collected
      cases collected
    | none =>
      rw [conflict] at collected
      exact step collected

/-- Trees and overlays drop nothing under these conditions, and only under these: where the spelling
of the locations is checked, every clash shows in it; where nothing is checked, there is no clash.
-/
theorem nothingDropped_trees_iff [DecidableEq Artifact] (stage : Stage Artifact)
    (dependencies : List (Analysed Artifact)) :
    (NothingDropped stage (exprToTree (some (ofArtifacts stage))) ↔
      (Clash stage → Visible stage.keys)) ∧
    (NothingDropped (mergedStage dependencies) (treeOfDependencies dependencies) ↔
      ((∃ error, collectStage .empty dependencies = .error error) ∨
        (Clash (mergedStage dependencies) → Visible (mergedStage dependencies).keys))) ∧
    (List.Forall₂ (fun (dependency : Analysed Artifact) content =>
        NothingDropped dependency.artifacts (.ok content))
        dependencies (treesOfOverlay dependencies) ↔
      ∀ dependency ∈ dependencies, ¬Clash dependency.artifacts) := by
  refine ⟨?_, ?_, ?_⟩
  · rw [exprToTree_ofArtifacts]
    exact nothingDropped_iff stage
  · rw [treeOfDependencies]
    cases collected : collectStage .empty dependencies with
    | error error => exact ⟨fun _ => .inl ⟨error, rfl⟩, fun _ => trivial⟩
    | ok last =>
      have merged : last = mergedStage dependencies := collectStage_eq collected
      subst merged
      have inner := nothingDropped_iff (mergedStage dependencies)
      constructor
      · exact fun holds => .inr (inner.mp holds)
      · rintro (⟨error, failed⟩ | seen)
        · cases failed
        · exact inner.mpr seen
  · rw [treesOfOverlay, List.forall₂_map_right_iff, List.forall₂_same]
    constructor
    · exact fun holds dependency member => (holds dependency member).2
    · exact fun noClash dependency member =>
        ⟨isTreeOf_treeContent (noClash dependency member), noClash dependency member⟩

/-- Two spellings of one location. -/
def twoSpellings : Stage Bool := ⟨[([46, 47, 97], true), ([97], false)], by decide⟩

theorem twoSpellings_dropped :
    exprToTree (some (ofArtifacts twoSpellings)) = .ok [([97], true)] ∧
      ¬NothingDropped twoSpellings (exprToTree (some (ofArtifacts twoSpellings))) := by
  have tree : exprToTree (some (ofArtifacts twoSpellings)) = .ok [([97], true)] := by rfl
  refine ⟨tree, fun holds => ?_⟩
  rw [tree] at holds
  exact holds.2 ⟨_, mem_cons_self, _, mem_cons_of_mem _ mem_cons_self, .inl ⟨by decide, by decide⟩⟩

end Trees

end Jst.Verif.StageTrees
