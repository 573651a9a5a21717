import Jst.Verif.StructureIds
/-!
# Computing tree structures

A computation of a structure only adds to the storage and keeps the cache sound: whatever was
computed before, and whatever was lost since, the result for a git tree is its structure.
-/
namespace Jst.Verif.TreeStructures

open SortedMap Tree TreeStructure TreeOverlay

variable {Hash : Type} {objects : GitObjects Hash}

variable {entries list : List (Hash × Str × Tree.ObjectType)} {before after storage : Storage Hash}
  {tree : Hash} {depth : Nat} {value : ArtifactDigest Hash}

/-! ## The cache -/

section Computation

variable [DecidableEq Hash]

/-- What is in the cache for git trees is their structure. -/
def Sound (objects : GitObjects Hash) (storage : Storage Hash) : Prop :=
  ∀ key value, storage.structures key = some value → value.isTree = true ∧
    ∀ depth, IsGitTree objects depth key → value.hash = structureId objects depth key

/-- Nothing is removed from a storage. -/
structure Extends (before after : Storage Hash) : Prop where
  trees : ∀ hash, before.trees hash = true → after.trees hash = true
  blobs : ∀ executable hash, before.blobs executable hash = true →
    after.blobs executable hash = true

section
omit [DecidableEq Hash]

theorem Extends.refl (storage : Storage Hash) : Extends storage storage :=
  ⟨fun _ => id, fun _ _ => id⟩

theorem Extends.trans {first second third : Storage Hash} (before : Extends first second)
    (after : Extends second third) : Extends first third :=
  ⟨fun hash present => after.trees hash (before.trees hash present),
    fun executable hash present => after.blobs executable hash (before.blobs executable hash present)⟩

end

/-- The object of an entry is there. -/
def HasObject (storage : Storage Hash) (type : Tree.ObjectType) (hash : Hash) : Prop :=
  if type = .tree then storage.trees hash = true else storage.hasBlob hash = true

section
omit [DecidableEq Hash]

theorem Extends.hasBlob (kept : Extends before after) {hash : Hash}
    (has : before.hasBlob hash = true) : after.hasBlob hash = true := by
  unfold Storage.hasBlob at has ⊢
  rw [or_eq_true] at has ⊢
  exact has.imp (kept.blobs _ _) (kept.blobs _ _)

theorem Extends.hasObject (kept : Extends before after) {type : Tree.ObjectType} {hash : Hash}
    (has : HasObject before type hash) : HasObject after type hash := by
  unfold HasObject at has ⊢
  split at has
  · next isTree =>
    rw [if_pos isTree]
    exact kept.trees _ has
  · next noTree =>
    rw [if_neg noTree]
    exact kept.hasBlob has

end

/-- With a tree, its subtrees are there. -/
def Complete (objects : GitObjects Hash) (storage : Storage Hash) : Prop :=
  ∀ tree data, storage.trees tree = true → objects.retrieve tree = some data →
    ∀ item ∈ data, item.type = .tree → storage.trees item.hash = true

/-- With a tree, all that is in it is there. -/
def Whole (objects : GitObjects Hash) (storage : Storage Hash) : Prop :=
  ∀ tree data, storage.trees tree = true → objects.retrieve tree = some data → ∀ item ∈ data,
    HasObject storage item.type item.hash

omit [DecidableEq Hash] in
theorem Complete.gitTreeIn (complete : Complete objects storage)
    (isTree : IsGitTree objects depth tree) (present : storage.trees tree = true) :
    GitTreeIn objects storage.trees depth tree := by
  induction depth generalizing tree with
  | zero => exact isTree
  | succ depth step =>
    obtain ⟨-, data, found, wellFormed, deeper⟩ := isTree
    exact ⟨present, data, found, wellFormed, fun item inside type =>
      step (deeper item inside type) (complete tree data present found item inside type)⟩

variable {storage : Storage Hash}

omit [DecidableEq Hash] in
theorem getStructure_eq_some {key : ArtifactDigest Hash}
    (found : storage.getStructure key = some value) :
    storage.structures key.hash = some value ∧ storage.isInCas value = true := by
  unfold Storage.getStructure at found
  split at found
  · split at found
    · next value' cached =>
      split at found
      · next present =>
        cases found
        exact ⟨cached, present⟩
      · cases found
    · cases found
  · cases found

/-- What a computation does to the storage. -/
structure Grows (objects : GitObjects Hash) (before after : Storage Hash) : Prop where
  sound : Sound objects after
  kept : Extends before after
  complete : Complete objects before → Complete objects after
  whole : Whole objects before → Whole objects after

section
omit [DecidableEq Hash]

theorem Grows.refl (sound : Sound objects storage) : Grows objects storage storage :=
  ⟨sound, .refl _, id, id⟩

theorem Grows.trans {first second third : Storage Hash} (before : Grows objects first second)
    (after : Grows objects second third) : Grows objects first third :=
  ⟨after.sound, before.kept.trans after.kept,
    fun complete => after.complete (before.complete complete),
    fun whole => after.whole (before.whole whole)⟩

end

/-- What a computation of the structure of an object does. -/
structure Does (objects : GitObjects Hash) (before : Storage Hash) (rawId : Hash)
    (type : Tree.ObjectType)
    (result : Except (TreeStructure.Failure Hash) (ArtifactDigest Hash)) (after : Storage Hash) :
    Prop where
  grows : Grows objects before after
  present : ∀ digest, result = .ok digest → type = .tree →
    digest.isTree = true ∧ after.trees digest.hash = true
  blob : ∀ digest, result = .ok digest → type ≠ .tree → after.hasBlob digest.hash = true
  correct : ∀ digest, result = .ok digest → ∀ depth, (type = .tree → IsGitTree objects depth rawId) →
    digest.hash = if type = .tree then structureId objects depth rawId else objects.blobId []

/-- What the loop of a computation does. -/
structure LoopDoes (objects : GitObjects Hash) (before : Storage Hash)
    (list : List (Hash × Str × Tree.ObjectType))
    (result : Except (TreeStructure.Failure Hash) (List (Hash × Str × Tree.ObjectType)))
    (after : Storage Hash) : Prop where
  grows : Grows objects before after
  present : ∀ entries, result = .ok entries → ∀ entry ∈ entries, HasObject after entry.2.2 entry.1
  correct : ∀ entries, result = .ok entries → ∀ depth,
    (∀ entry ∈ list, entry.2.2 = .tree → IsGitTree objects depth entry.1) →
    entries = list.map fun entry => (if entry.2.2 = .tree then structureId objects depth entry.1
      else objects.blobId [], entry.2)

section
omit [DecidableEq Hash]

theorem Does.failed {rawId : Hash} {type : Tree.ObjectType} {failure : TreeStructure.Failure Hash}
    (grows : Grows objects before after) :
    Does objects before rawId type (.error failure) after := by
  refine ⟨grows, fun _ same => ?_, fun _ same => ?_, fun _ same => ?_⟩ <;> cases same

theorem LoopDoes.failed {failure : TreeStructure.Failure Hash} (grows : Grows objects before after) :
    LoopDoes objects before list (.error failure) after := by
  refine ⟨grows, fun _ same => ?_, fun _ same => ?_⟩ <;> cases same

end

theorem storeBlob_grows (sound : Sound objects storage) (content : Str) (isExecutable : Bool) :
    Grows objects storage (storage.storeBlob objects content isExecutable).2 := by
  have kept : Extends storage (storage.storeBlob objects content isExecutable).2 :=
    ⟨fun _ => id, fun _ _ present => by simp [Storage.storeBlob, present]⟩
  exact ⟨sound, kept, id, fun whole tree data present found item inside =>
    kept.hasObject (whole tree data present found item inside)⟩

section Loop

variable {compute : ArtifactDigest Hash → TreeStructure.Computation Hash}

section

variable
  (does : ∀ tree storage, Sound objects storage →
      Does objects storage tree .tree (compute ⟨tree, true⟩ storage).1
        (compute ⟨tree, true⟩ storage).2)
include does

theorem structureEntry_does (sound : Sound objects storage) (rawId : Hash) (type : Tree.ObjectType) :
    Does objects storage rawId type (structureEntry objects compute rawId type storage).1
      (structureEntry objects compute rawId type storage).2 := by
  unfold structureEntry
  by_cases isTree : type = .tree
  · rw [if_pos isTree, isTree]
    exact does rawId storage sound
  · rw [if_neg isTree]
    refine ⟨storeBlob_grows sound _ _, fun _ _ type => absurd type isTree, fun digest same _ => ?_,
      fun digest same _ _ => ?_⟩
    · cases same
      cases decide (type = Tree.ObjectType.executable) <;> simp [Storage.storeBlob, Storage.hasBlob]
    · cases same
      rw [if_neg isTree]

theorem structureEntries_does (list : List (Hash × Str × Tree.ObjectType))
    (sound : Sound objects storage) :
    LoopDoes objects storage list (structureEntries objects compute list storage).1
      (structureEntries objects compute list storage).2 := by
  induction list generalizing storage with
  | nil =>
    refine ⟨.refl sound, fun entries same entry inside => ?_, fun entries same _ _ => ?_⟩
    · cases same
      cases inside
    · cases same
      rfl
  | cons first rest step =>
    obtain ⟨rawId, name, type⟩ := first
    have here := structureEntry_does does sound rawId type
    rw [structureEntries]
    cases computed : structureEntry objects compute rawId type storage with
    | mk result after =>
      rw [computed] at here
      cases result with
      | error failure => exact .failed here.grows
      | ok digest =>
        have later := step here.grows.sound
        dsimp only at later ⊢
        cases looped : structureEntries objects compute rest after with
        | mk result final =>
          rw [looped] at later
          have grows := here.grows.trans later.grows
          cases result with
          | error failure => exact .failed grows
          | ok entries =>
            refine ⟨grows, fun all same entry inside => ?_, fun all same depth trees => ?_⟩
            · cases same
              rcases mem_cons.mp inside with rfl | deeper
              · refine later.grows.kept.hasObject ?_
                unfold HasObject
                split
                · next isTree => exact (here.present digest rfl isTree).2
                · next noTree => exact here.blob digest rfl noTree
              · exact later.present entries rfl entry deeper
            · cases same
              have others := later.correct entries rfl depth fun entry inside =>
                trees entry (mem_cons_of_mem _ inside)
              rw [map_cons, ← others, here.correct digest rfl depth (trees _ mem_cons_self)]

theorem structureEntries_ok (succeeds : ∀ tree storage, Sound objects storage →
      GitTreeIn objects storage.trees depth tree →
      ∃ digest, (compute ⟨tree, true⟩ storage).1 = .ok digest)
    (list : List (Hash × Str × Tree.ObjectType)) (sound : Sound objects storage)
    (trees : ∀ entry ∈ list, entry.2.2 = .tree → GitTreeIn objects storage.trees depth entry.1) :
    ∃ entries, (structureEntries objects compute list storage).1 = .ok entries := by
  induction list generalizing storage with
  | nil => exact ⟨[], rfl⟩
  | cons first rest step =>
    obtain ⟨rawId, name, type⟩ := first
    have here := structureEntry_does does sound rawId type
    have good : ∃ digest, (structureEntry objects compute rawId type storage).1 = .ok digest := by
      unfold structureEntry
      by_cases isTree : type = .tree
      · rw [if_pos isTree]
        exact succeeds rawId storage sound (trees _ mem_cons_self isTree)
      · rw [if_neg isTree]
        exact ⟨_, rfl⟩
    obtain ⟨digest, good⟩ := good
    rw [structureEntries]
    cases computed : structureEntry objects compute rawId type storage with
    | mk result after =>
      rw [computed] at here good
      dsimp only at good
      subst good
      have later := step here.grows.sound fun entry inside isTree =>
        (trees entry (mem_cons_of_mem _ inside) isTree).mono here.grows.kept.trees
      obtain ⟨entries, later⟩ := later
      dsimp only at later ⊢
      cases looped : structureEntries objects compute rest after with
      | mk result final =>
        rw [looped] at later
        dsimp only at later
        subst later
        exact ⟨_, rfl⟩

end

end Loop

theorem listEntries_perm (order : ListingOrder Hash) (list : List (Hash × Str × Tree.ObjectType)) :
    (listEntries (order.list (Grouping.group list))).Perm list :=
  ((order.perm _).flatMap_right _).trans (Grouping.group_perm list)

theorem createTree_listed (order : ListingOrder Hash) {data : GitTree Hash}
    (wellFormed : WellFormed data)
    (perm : entries.Perm (data.map fun item => (item.hash, item.name, item.type))) :
    createTree (order.list (Grouping.group entries)) = data :=
  createTree_eq wellFormed ((listEntries_perm order entries).trans perm)

omit [DecidableEq Hash] in
theorem mem_createTree {groups : GroupedEntries Hash} {item : GitEntry Hash}
    (inside : item ∈ createTree groups) :
    (item.hash, item.name, item.type) ∈ listEntries groups := by
  rw [createTree_written] at inside
  obtain ⟨⟨sorted, hash, type⟩, stored, rfl⟩ := mem_map.mp inside
  rw [mem_iff_find (emplaceAll_ascending _ List.Pairwise.nil), find_emplaceAll, find_nil,
    none_or] at stored
  obtain ⟨⟨hash', items⟩, group, listed⟩ := List.mem_flatMap.mp (mem_of_find stored)
  obtain ⟨⟨name, type'⟩, member, shown⟩ := mem_map.mp listed
  simp only [Prod.mk.injEq] at shown
  obtain ⟨rfl, rfl, rfl⟩ := shown
  -- The slash that a tree was sorted with is dropped again.
  have slash : lit "/" = [0x2f] := by decide
  have named : (if type' = .tree then (sortName name type').dropLast else sortName name type') =
      name := by
    by_cases isTree : type' = .tree <;> simp [sortName, slash, isTree]
  dsimp only
  rw [named]
  exact List.mem_flatMap.mpr ⟨_, group, mem_map.mpr ⟨_, member, rfl⟩⟩

theorem storeTree_grows (sound : Sound objects storage) {content : GitTree Hash}
    (items : ∀ item ∈ content, HasObject storage item.type item.hash) :
    Grows objects storage (storage.storeTree objects content).2 := by
  have kept : Extends storage (storage.storeTree objects content).2 :=
    ⟨fun hash present => by simp [Storage.storeTree, present], fun _ _ => id⟩
  have cases : ∀ tree, (storage.storeTree objects content).2.trees tree = true →
      storage.trees tree = true ∨ objects.treeId content = tree := by
    intro tree present
    simp only [Storage.storeTree, or_eq_true, decide_eq_true_eq] at present
    exact present.imp id Eq.symm
  refine ⟨sound, kept, fun complete tree data present found item inside type => ?_,
    fun whole tree data present found item inside => ?_⟩
  · rcases cases tree present with before | new
    · exact kept.trees _ (complete tree data before found item inside type)
    · rw [(objects.addressed _ _).mpr new] at found
      have here := items item (some.inj found ▸ inside)
      rw [HasObject, if_pos type] at here
      exact kept.trees _ here
  · rcases cases tree present with before | new
    · exact kept.hasObject (whole tree data before found item inside)
    · rw [(objects.addressed _ _).mpr new] at found
      exact kept.hasObject (items item (some.inj found ▸ inside))

theorem setStructure_grows (sound : Sound objects storage) {key : ArtifactDigest Hash}
    (isTree : value.isTree = true) (correct : ∀ depth, IsGitTree objects depth key.hash →
      value.hash = structureId objects depth key.hash) :
    Grows objects storage (storage.setStructure key value).2 := by
  unfold Storage.setStructure
  split
  · exact .refl sound
  · split
    · refine ⟨fun other found cached => ?_, ⟨fun _ => id, fun _ _ => id⟩, id, id⟩
      dsimp only at cached
      split at cached
      · next same =>
        subst same
        rcases Option.or_eq_some_iff.mp cached with cached | ⟨-, new⟩
        · exact sound _ _ cached
        · cases new
          exact ⟨isTree, correct⟩
      · exact sound _ _ cached
    · exact .refl sound

theorem structure_written (order : ListingOrder Hash) {content : GitTree Hash}
    (found : objects.retrieve tree = some content) (isTree : IsGitTree objects (depth + 1) tree)
    (correct : (∀ entry ∈ listEntries (order.list (readDirectTree content)), entry.2.2 = .tree →
        IsGitTree objects depth entry.1) →
      entries = (listEntries (order.list (readDirectTree content))).map fun entry =>
        (if entry.2.2 = .tree then structureId objects depth entry.1 else objects.blobId [],
          entry.2)) : objects.treeId (createTree (order.list (Grouping.group entries))) =
      structureId objects (depth + 1) tree := by
  obtain ⟨-, data, found', wellFormed, deeper⟩ := isTree
  rw [found] at found'
  cases found'
  have listed : (listEntries (order.list (readDirectTree content))).Perm
      (content.map fun item => (item.hash, item.name, item.type)) := listEntries_perm order _
  have same := correct fun entry inside type => by
    obtain ⟨item, member, rfl⟩ := mem_map.mp (listed.mem_iff.mp inside)
    exact deeper item member type
  have perm := listed.map fun entry : Hash × Str × Tree.ObjectType =>
    (if entry.2.2 = .tree then structureId objects depth entry.1 else objects.blobId [], entry.2)
  rw [← same, map_map] at perm
  have items : (content.map (structureItem objects (structureId objects depth))).map
      (fun item => (item.hash, item.name, item.type)) =
        content.map ((fun entry : Hash × Str × Tree.ObjectType =>
          (if entry.2.2 = .tree then structureId objects depth entry.1 else objects.blobId [],
            entry.2)) ∘ fun item => (item.hash, item.name, item.type)) := by
    rw [map_map]
    rfl
  rw [← items] at perm
  rw [createTree_listed order (wellFormed_structure wellFormed _) perm, structureId,
    contents_of_retrieve found]

theorem setStructure_does (grows : Grows objects before storage) (isTree : value.isTree = true)
    (stored : storage.trees value.hash = true)
    (correct : ∀ depth, IsGitTree objects depth tree → value.hash = structureId objects depth tree) :
    Does objects before tree .tree (if (storage.setStructure ⟨tree, true⟩ value).1 then .ok value
        else .error (.notCached tree value.hash)) (storage.setStructure ⟨tree, true⟩ value).2 := by
  have set : Grows objects storage (storage.setStructure ⟨tree, true⟩ value).2 :=
    setStructure_grows grows.sound isTree correct
  split
  · refine ⟨grows.trans set, fun digest same _ => ?_, fun _ _ noTree => absurd rfl noTree,
      fun digest same depth good => ?_⟩
    · cases same
      exact ⟨isTree, set.kept.trees _ stored⟩
    · cases same
      rw [if_pos rfl]
      exact correct depth (good rfl)
  · exact .failed (grows.trans set)

theorem storeStructure_eq (order : ListingOrder Hash) (tree : ArtifactDigest Hash)
    (entries : List (Hash × Str × Tree.ObjectType)) :
    storeStructure objects order tree entries storage =
      let stored := storage.storeTree objects (createTree (order.list (Grouping.group entries)))
      let set := stored.2.setStructure tree stored.1
      (if set.1 then .ok stored.1 else .error (.notCached tree.hash stored.1.hash), set.2) := by
  unfold storeStructure
  dsimp only
  split
  · next shape => rw [shape]; rfl
  · next shape => rw [shape]; rfl

theorem storeStructure_does {order : ListingOrder Hash}
    (loop : LoopDoes objects before list (.ok entries) storage)
    (correct : ∀ depth, IsGitTree objects depth tree →
      objects.treeId (createTree (order.list (Grouping.group entries))) =
        structureId objects depth tree) :
    Does objects before tree .tree (storeStructure objects order ⟨tree, true⟩ entries storage).1
      (storeStructure objects order ⟨tree, true⟩ entries storage).2 := by
  rw [storeStructure_eq]
  have stored : Grows objects storage _ :=
    storeTree_grows loop.grows.sound fun item inside =>
      loop.present entries rfl _
        ((listEntries_perm order entries).mem_iff.mp (mem_createTree inside))
  exact setStructure_does (loop.grows.trans stored) rfl (by simp [Storage.storeTree]) correct

theorem storeStructure_ok {order : ListingOrder Hash}
    (loop : LoopDoes objects before list (.ok entries) storage)
    (present : storage.trees tree = true) (isTree : IsGitTree objects depth tree)
    (correct : objects.treeId (createTree (order.list (Grouping.group entries))) =
      structureId objects depth tree) :
    ∃ digest, (storeStructure objects order ⟨tree, true⟩ entries storage).1 = .ok digest := by
  have allowed : ((storage.storeTree objects (createTree (order.list
      (Grouping.group entries)))).2.setStructure ⟨tree, true⟩ (storage.storeTree objects
        (createTree (order.list (Grouping.group entries)))).1).1 = true := by
    unfold Storage.setStructure
    split
    · next result cached =>
      obtain ⟨isTree', same⟩ := loop.grows.sound _ _ (getStructure_eq_some cached).1
      obtain ⟨hash, flag⟩ := result
      have hashes := (same depth isTree).trans correct.symm
      dsimp only at isTree' hashes ⊢
      rw [hashes, isTree']
      exact decide_eq_true rfl
    · rw [if_pos (by simp [Storage.isInCas, Storage.storeTree, present])]
  rw [storeStructure_eq]
  dsimp only
  rw [if_pos allowed]
  exact ⟨_, rfl⟩

variable (objects)

theorem compute_does (order : ListingOrder Hash) (fuel : Nat) (tree : Hash) (storage : Storage Hash)
    (sound : Sound objects storage) :
    Does objects storage tree .tree (compute objects order fuel ⟨tree, true⟩ storage).1
      (compute objects order fuel ⟨tree, true⟩ storage).2 := by
  induction fuel generalizing tree storage with
  | zero => exact .failed (.refl sound)
  | succ fuel step =>
    rw [compute, if_neg (by simp)]
    cases cached : storage.getStructure ⟨tree, true⟩ with
    | some result =>
      obtain ⟨entry, inside⟩ := getStructure_eq_some cached
      obtain ⟨isTree, correct⟩ := sound _ _ entry
      refine ⟨.refl sound, fun digest same _ => ?_, fun _ _ noTree => absurd rfl noTree,
        fun digest same depth good => ?_⟩
      · cases same
        rw [Storage.isInCas, if_pos isTree] at inside
        exact ⟨isTree, inside⟩
      · cases same
        rw [if_pos rfl]
        exact correct depth (good rfl)
    | none =>
      dsimp only
      by_cases missing : storage.trees tree = false
      · rw [if_pos missing]
        exact .failed (.refl sound)
      · rw [if_neg missing]
        cases found : objects.retrieve tree with
        | none => exact .failed (.refl sound)
        | some content =>
          have loop := structureEntries_does step
            (listEntries (order.list (readDirectTree content))) sound
          dsimp only
          cases looped : structureEntries objects (compute objects order fuel)
              (listEntries (order.list (readDirectTree content))) storage with
          | mk result after =>
            rw [looped] at loop
            cases result with
            | error failure => exact .failed loop.grows
            | ok entries =>
              have correct : ∀ depth, IsGitTree objects depth tree →
                  objects.treeId (createTree (order.list (Grouping.group entries))) =
                    structureId objects depth tree := by
                intro depth isTree
                cases depth with
                | zero => exact isTree.elim
                | succ depth =>
                  exact structure_written order found isTree (loop.correct entries rfl depth)
              exact storeStructure_does loop correct

theorem compute_ok (order : ListingOrder Hash) {fuel : Nat} (sound : Sound objects storage)
    (enough : depth ≤ fuel) (readable : GitTreeIn objects storage.trees depth tree) :
    ∃ digest, (compute objects order fuel ⟨tree, true⟩ storage).1 = .ok digest := by
  induction fuel generalizing depth tree storage with
  | zero =>
    cases Nat.le_zero.mp enough
    exact readable.elim
  | succ fuel step =>
    cases depth with
    | zero => exact readable.elim
    | succ depth =>
      have isTree := readable.isGitTree
      obtain ⟨present, content, found, -, deeper⟩ := readable
      rw [compute, if_neg (by simp)]
      cases cached : storage.getStructure ⟨tree, true⟩ with
      | some result => exact ⟨result, rfl⟩
      | none =>
        dsimp only
        rw [if_neg (by simp [present]), found]
        have listed : (listEntries (order.list (readDirectTree content))).Perm
            (content.map fun item => (item.hash, item.name, item.type)) := listEntries_perm order _
        have loop := structureEntries_does (compute_does objects order fuel)
          (listEntries (order.list (readDirectTree content))) sound
        have succeeds := structureEntries_ok (compute_does objects order fuel)
          (fun tree storage sound readable => step sound (Nat.le_of_succ_le_succ enough) readable)
          (listEntries (order.list (readDirectTree content))) sound fun entry inside type => by
            obtain ⟨item, member, rfl⟩ := mem_map.mp (listed.mem_iff.mp inside)
            exact deeper item member type
        obtain ⟨entries, succeeds⟩ := succeeds
        dsimp only
        cases looped : structureEntries objects (compute objects order fuel)
            (listEntries (order.list (readDirectTree content))) storage with
        | mk result after =>
          rw [looped] at loop succeeds
          dsimp only at succeeds
          subst succeeds
          exact storeStructure_ok loop (loop.grows.kept.trees _ present) isTree
            (structure_written order found isTree (loop.correct entries rfl depth))

theorem compute_notTree (order : ListingOrder Hash) (fuel : Nat) (tree : ArtifactDigest Hash)
    (storage : Storage Hash) (notTree : tree.isTree = false) :
    (compute objects order fuel tree storage).2 = storage := by
  cases fuel with
  | zero => rfl
  | succ fuel => rw [compute, if_pos notTree]

/-! ## Tree structures -/

/-- The storages that are reached by calls: the cache is empty at first, and between the calls,
objects come and go, and entries of the cache are lost. -/
inductive Reachable : Storage Hash → Prop where
  | start {storage : Storage Hash} : (∀ key, storage.structures key = none) → Reachable storage
  | call {storage : Storage Hash} (order : ListingOrder Hash) (fuel : Nat)
      (tree : ArtifactDigest Hash) : Reachable storage →
      Reachable (compute objects order fuel tree storage).2
  | change {before after : Storage Hash} : Reachable before →
      (∀ key value, after.structures key = some value → before.structures key = some value) →
      Reachable after

theorem Reachable.sound (reachable : Reachable objects storage) : Sound objects storage := by
  induction reachable with
  | start empty => exact fun key value cached => by rw [empty key] at cached; cases cached
  | call order fuel tree _ step =>
    obtain ⟨hash, isTree⟩ := tree
    cases isTree with
    | true => exact (compute_does objects order fuel hash _ step).grows.sound
    | false => rwa [compute_notTree objects order fuel _ _ rfl]
  | change _ kept step => exact fun key value cached => step key value (kept key value cached)

/-- A git tree that can be read from a storage. -/
def CanBeRead (storage : Storage Hash) (tree : Hash) : Prop :=
  ∃ depth, GitTreeIn objects storage.trees depth tree

/-- A structure is computed for a tree, however the entries are listed. -/
def Computed (storage : Storage Hash) (tree structured : Hash) : Prop :=
  ∃ depth, ∀ order fuel, depth ≤ fuel →
    (compute objects order fuel ⟨tree, true⟩ storage).1 = .ok ⟨structured, true⟩

variable {objects}

theorem computed_structureId (reachable : Reachable objects storage)
    (readable : GitTreeIn objects storage.trees depth tree) :
    Computed objects storage tree (structureId objects depth tree) := by
  refine ⟨depth, fun order fuel enough => ?_⟩
  have does := compute_does objects order fuel tree storage reachable.sound
  obtain ⟨digest, good⟩ := compute_ok objects order reachable.sound enough readable
  have isTree := (does.present digest good rfl).1
  have same := does.correct digest good depth fun _ => readable.isGitTree
  rw [if_pos rfl] at same
  rw [good, ← same, ← isTree]

theorem Computed.unique {first second : Hash} (order : ListingOrder Hash)
    (left : Computed objects storage tree first) (right : Computed objects storage tree second) :
    first = second := by
  obtain ⟨depth, left⟩ := left
  obtain ⟨other, right⟩ := right
  have same := (left order (max depth other) (Nat.le_max_left _ _)).symm.trans
    (right order (max depth other) (Nat.le_max_right _ _))
  cases same
  rfl

/-- The structure of a tree has its shape and is empty otherwise; it is the same for all trees of
that shape, whatever is in the cache, and it is its own structure. -/
structure IsStructureOf (objects : GitObjects Hash) (structured tree : Hash) : Prop where
  sameShape : SameShape objects structured tree
  emptyBlobs : HasEmptyBlobs objects structured
  shared : ∀ storage other structured', Reachable objects storage → CanBeRead objects storage other →
    Computed objects storage other structured' → (structured = structured' ↔ SameShape objects tree other)
  recomputed : ∀ storage, Reachable objects storage → CanBeRead objects storage tree →
    Computed objects storage tree structured
  itself : ∀ storage, Reachable objects storage → CanBeRead objects storage structured →
    Computed objects storage structured structured

/-- The order in which the groups are. -/
def asListed : ListingOrder Hash := ⟨id, fun _ => .refl _⟩

theorem isStructureOf_structureId (isTree : IsGitTree objects depth tree) :
    IsStructureOf objects (structureId objects depth tree) tree := by
  refine ⟨sameShape_structureId isTree, hasEmptyBlobs_structureId isTree, ?_, ?_, ?_⟩
  · rintro storage other structured' reached ⟨otherDepth, otherReadable⟩ otherComputed
    rw [otherComputed.unique asListed (computed_structureId reached otherReadable)]
    exact structureId_eq_iff isTree otherReadable.isGitTree
  · rintro storage reached ⟨otherDepth, otherReadable⟩
    rw [structureId_depth isTree otherReadable.isGitTree]
    exact computed_structureId reached otherReadable
  · rintro storage reached ⟨otherDepth, otherReadable⟩
    have again := computed_structureId reached otherReadable
    rwa [structureId_depth otherReadable.isGitTree (isGitTree_structureId isTree),
      structureId_idem isTree] at again

/-- For every tree that can be read, its structure is computed; in a complete storage, that can be
read afterwards. -/
theorem tree_structure_computed (storage : Storage Hash) (reachable : Reachable objects storage)
    (tree : Hash) (readable : CanBeRead objects storage tree) :
    ∃ structured, Computed objects storage tree structured ∧
      IsStructureOf objects structured tree ∧
      (Complete objects storage → ∃ depth, ∀ order fuel, depth ≤ fuel →
        CanBeRead objects (compute objects order fuel ⟨tree, true⟩ storage).2 structured) := by
  obtain ⟨depth, readable⟩ := readable
  have isTree := readable.isGitTree
  have computed := computed_structureId reachable readable
  refine ⟨structureId objects depth tree, computed, isStructureOf_structureId isTree,
    fun complete => ⟨depth, fun order fuel enough => ?_⟩⟩
  have does := compute_does objects order fuel tree storage reachable.sound
  obtain ⟨digest, good⟩ := compute_ok objects order reachable.sound enough readable
  have same := does.correct digest good depth fun _ => isTree
  rw [if_pos rfl] at same
  rw [← same]
  refine ⟨depth, (does.grows.complete complete).gitTreeIn ?_ (does.present digest good rfl).2⟩
  rw [same]
  exact isGitTree_structureId isTree

end Computation

/-! ## A storage to compute with -/

/-- Ids of objects that are their own content: a blob, or a tree by its entries. -/
inductive PlainId where
  | blob (content : Str)
  | empty
  | entry (name : Str) (type : Tree.ObjectType) (hash rest : PlainId)
deriving DecidableEq

/-- The tree object of an id. -/
def PlainId.retrieve : PlainId → Option (GitTree PlainId)
  | .blob _ => none
  | .empty => some []
  | .entry name type hash rest => rest.retrieve.map (⟨name, type, hash⟩ :: ·)

/-- The objects that are their own ids. -/
def plainObjects : GitObjects PlainId where
  treeId data := data.foldr (fun item rest => .entry item.name item.type item.hash rest) .empty
  retrieve := PlainId.retrieve
  addressed := by
    intro hash data
    induction hash generalizing data with
    | blob content => cases data <;> simp [PlainId.retrieve]
    | empty => cases data <;> simp [PlainId.retrieve]
    | entry name type hash rest _ step =>
      cases data with
      | nil => simp [PlainId.retrieve]
      | cons item data =>
        simp only [PlainId.retrieve, map_eq_some_iff, List.cons.injEq, List.foldr_cons,
          PlainId.entry.injEq]
        constructor
        · rintro ⟨found, present, rfl, rfl⟩
          exact ⟨rfl, rfl, rfl, (step _).mp present⟩
        · rintro ⟨rfl, rfl, rfl, same⟩
          exact ⟨data, (step data).mpr same, rfl, rfl⟩
  blobId := .blob
  blob
    | .blob content => some content
    | _ => none
  blobAddressed := by
    intro hash content
    cases hash <;> simp [eq_comm]

/-- A tree with a file, and a subtree with an executable and a symbolic link of one content. -/
def nestedTree : PlainId :=
  plainObjects.treeId [⟨lit "a", .file, .blob (lit "x")⟩,
    ⟨lit "b", .tree, plainObjects.treeId [⟨lit "c", .executable, .blob (lit "x")⟩,
      ⟨lit "d", .symlink, .blob (lit "x")⟩]⟩]

/-- A storage where all trees are. -/
def fullStorage : Storage PlainId := ⟨fun _ => true, fun _ _ => false, fun _ => none⟩

theorem nestedTree_canBeRead : CanBeRead plainObjects fullStorage nestedTree := by
  refine ⟨2, rfl, _, rfl, ⟨by decide, by decide, by decide⟩, fun item inside type => ?_⟩
  rcases mem_cons.mp inside with rfl | inside
  · cases type
  · cases mem_singleton.mp inside
    refine ⟨rfl, _, rfl, ⟨by decide, by decide, by decide⟩, fun item inside type => ?_⟩
    rcases mem_cons.mp inside with rfl | inside
    · cases type
    · cases mem_singleton.mp inside
      cases type

theorem tree_structure_computed_nested :
    ∃ structured, Computed plainObjects fullStorage nestedTree structured ∧
      IsStructureOf plainObjects structured nestedTree := by
  obtain ⟨structured, computed, isStructure, -⟩ := tree_structure_computed fullStorage
    (.start fun _ => rfl) nestedTree nestedTree_canBeRead
  exact ⟨structured, computed, isStructure⟩

end Jst.Verif.TreeStructures
