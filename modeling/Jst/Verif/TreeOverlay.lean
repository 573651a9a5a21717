import Jst.Verif.TreeMerge
/-!
# The overlay of two trees, path by path

The overlay has at every path what the overlay of the two trees should have there exactly when the
entries it takes over are not misread. The parser misreads an entry when an entry of another type
with the same hash precedes it in the tree object.
-/
namespace Jst.Verif.TreeOverlay

open Jst.SortedMap Jst.Tree

variable {Hash : Type} [DecidableEq Hash]

section Paths

variable {cas : Cas Hash} {depth : Nat} {tree base other result : Hash}

theorem merged_entry (baseGood : IsTree cas (depth + 1) base)
    (otherGood : IsTree cas (depth + 1) other) (differ : base ≠ other)
    (merged : Merged cas base other result) (name : Str)
    (notBoth : ∀ baseTree otherTree, entry cas base name = some (.tree, baseTree) →
      entry cas other name ≠ some (.tree, otherTree)) :
    entry cas result name = (readEntry cas other name).or (readEntry cas base name) := by
  cases merged with
  | same => exact absurd rfl differ
  | merge subtrees differ both nested wins keeps =>
    cases otherHas : readEntry cas other name with
    | none =>
      rw [keeps name otherHas]
      rfl
    | some item =>
      refine wins name item otherHas fun baseTree isTree baseHas => ?_
      have otherTree : entry cas other name = some (.tree, item.2) :=
        (readEntry_tree otherGood _ _).mp (by rw [otherHas, ← isTree])
      exact notBoth _ _ ((readEntry_tree baseGood _ _).mp baseHas) otherTree

section

variable (baseGood : IsTree cas depth base) (otherGood : IsTree cas depth other)
  (merged : Merged cas base other result)
include baseGood otherGood merged

theorem agrees_of_faithful (faithful : Faithful cas base other) (path : List Str) :
    (overlayAt cas path base other).Agrees (entryAt (entry cas) path result) := by
  induction path generalizing depth base other result with
  | nil => exact ⟨result, rfl⟩
  | cons name path step =>
    by_cases same : base = other
    · subst same
      cases merged with
      | same => exact agrees_same _
      | merge _ differ => exact absurd rfl differ
    cases depth with
    | zero => exact absurd baseGood (by simp [IsTree])
    | succ depth =>
      have taken := faithful [] base other rfl rfl same name
      rw [overlayAt]
      split
      · next otherTree baseTree otherHas baseHas =>
        cases merged with
        | same => exact absurd rfl same
        | merge subtrees _ both nested =>
          have baseRead := (readEntry_tree baseGood _ _).mpr baseHas
          have otherRead := (readEntry_tree otherGood _ _).mpr otherHas
          rw [entryAt, both name baseTree otherTree baseRead otherRead]
          refine step (isTree_entry baseGood baseHas) (isTree_entry otherGood otherHas)
            (nested name baseTree otherTree baseRead otherRead) ?_
          intro inner left right leftHas rightHas
          exact faithful (name :: inner) left right (by rw [entryAt, baseHas]; exact leftHas)
            (by rw [entryAt, otherHas]; exact rightHas)
      · next item otherHas notBoth =>
        have here := merged_entry baseGood otherGood same merged name
          fun baseTree otherTree baseHas otherHas' =>
            notBoth otherTree baseTree baseHas (some.inj (otherHas.symm.trans otherHas'))
        rw [taken, otherHas, Option.some_or, ← otherHas] at here
        exact entryAt_congr here
      · next otherLacks =>
        have here := merged_entry baseGood otherGood same merged name
          fun baseTree otherTree _ otherHas => by simp [otherLacks] at otherHas
        rw [taken, otherLacks, none_or] at here
        exact entryAt_congr here

theorem faithful_of_agrees
    (agrees : ∀ path, (overlayAt cas path base other).Agrees (entryAt (entry cas) path result)) :
    Faithful cas base other := by
  intro path
  induction path generalizing depth base other result with
  | nil =>
    intro baseTree otherTree baseSame otherSame differ name
    cases baseSame
    cases otherSame
    cases depth with
    | zero => exact absurd baseGood (by simp [IsTree])
    | succ depth =>
      have here := agrees [name]
      by_cases both : ∃ baseTree otherTree, entry cas base name = some (.tree, baseTree) ∧
          entry cas other name = some (.tree, otherTree)
      · obtain ⟨baseTree, otherTree, baseHas, otherHas⟩ := both
        rw [(readEntry_tree otherGood _ _).mpr otherHas, otherHas]
        rfl
      · have read := merged_entry baseGood otherGood differ merged name
          fun baseTree otherTree baseHas otherHas => both ⟨_, _, baseHas, otherHas⟩
        rw [← read, ← entryAt_singleton (entry cas)]
        rw [overlayAt] at here
        split at here
        · next otherTree baseTree otherHas baseHas =>
          exact absurd ⟨_, _, baseHas, otherHas⟩ both
        · next item otherHas _ =>
          rw [otherHas, Option.some_or, ← otherHas, ← entryAt_singleton (entry cas)]
          exact here
        · next otherLacks =>
          rw [otherLacks, none_or, ← entryAt_singleton (entry cas)]
          exact here
  | cons name path step =>
    intro baseTree otherTree baseAt otherAt differ
    have unlike : base ≠ other := by
      rintro rfl
      rw [baseAt] at otherAt
      exact differ (congrArg snd (some.inj otherAt))
    cases depth with
    | zero => exact absurd baseGood (by simp [IsTree])
    | succ depth =>
      -- Both trees have a tree under the first name, and the overlay has their overlay there.
      obtain ⟨baseSub, baseHas, baseBelow⟩ := tree_of_entryAt baseAt
      obtain ⟨otherSub, otherHas, otherBelow⟩ := tree_of_entryAt otherAt
      cases merged with
      | same => exact absurd rfl unlike
      | merge subtrees _ both nested =>
        have baseRead := (readEntry_tree baseGood _ _).mpr baseHas
        have otherRead := (readEntry_tree otherGood _ _).mpr otherHas
        refine step (isTree_entry baseGood baseHas) (isTree_entry otherGood otherHas)
          (nested name baseSub otherSub baseRead otherRead) ?_ baseTree otherTree baseBelow
          otherBelow differ
        intro inner
        have through : entryAt (entry cas) (name :: inner) result =
            entryAt (entry cas) inner (subtrees name) := by
          rw [entryAt, both name _ _ baseRead otherRead]
        have here := agrees (name :: inner)
        rw [through, overlayAt, otherHas, baseHas] at here
        exact here

theorem agrees_iff_faithful :
    (∀ path, (overlayAt cas path base other).Agrees (entryAt (entry cas) path result)) ↔
      Faithful cas base other :=
  ⟨faithful_of_agrees baseGood otherGood merged,
    fun faithful path => agrees_of_faithful baseGood otherGood merged faithful path⟩

end

end Paths

section Identical

variable {cas : Cas Hash} {depth : Nat} {tree : Hash}

theorem overlayLoop_same (disjoint : Bool)
    (keys : List (Str × ObjectInfo Hash × ObjectInfo Hash)) {rest overlay : TreeEntries Hash}
    (present : ∀ name info, (name, info) ∈ rest → find name overlay = some info) :
    overlayLoop disjoint rest overlay keys = .ok (overlay, keys) := by
  induction rest with
  | nil => rfl
  | cons head rest step =>
    obtain ⟨name, info⟩ := head
    rw [overlayLoop, present name info mem_cons_self]
    simp only [↓reduceIte]
    exact step fun name info member => present name info (mem_cons_of_mem _ member)

theorem mergeTrees_same (disjoint : Bool)
    (subcaller : ObjectInfo Hash → ObjectInfo Hash → Except (Failure Hash) (ObjectInfo Hash))
    (good : IsTree cas (depth + 1) tree) :
    mergeTrees cas disjoint subcaller (treeInfo tree) (treeInfo tree) = .ok (treeInfo tree) ↔
      ∀ name, readEntry cas tree name = entry cas tree name := by
  obtain ⟨entries, read, ordered, found⟩ := readTree_ok good
  have plain : ∀ item ∈ entries, 0x2f ∉ item.1 := by
    rintro ⟨name, info⟩ member
    rw [mem_iff_find ordered, found, map_eq_some_iff] at member
    obtain ⟨item, present, -⟩ := member
    exact readEntry_plain good present
  have merged : mergeTrees cas disjoint subcaller (treeInfo tree) (treeInfo tree) =
      .ok (treeInfo (cas.treeId (serializeGitTree entries))) := by
    have looped := overlayLoop_same disjoint []
      fun name info member => (mem_iff_find ordered).mp member
    simp only [mergeTrees, read, looped, insertOverlays, bind, Except.bind]
    rfl
  have written : ∀ name, entryIn (serializeGitTree entries) name = readEntry cas tree name := by
    intro name
    rw [entryIn_serializeGitTree ordered plain, found]
    cases readEntry cas tree name <;> rfl
  obtain ⟨data, retrieved, wellFormed, -⟩ := good
  have here : contents cas tree = data := by simp [contents, retrieved]
  rw [merged, ok.injEq, entryInfo_inj, Prod.mk.injEq, ← cas.addressed, retrieved, some.injEq]
  simp only [true_and]
  constructor
  · intro same name
    rw [← written name, ← same, entry, here]
  · intro faithful
    -- Both objects have the same items and are sorted, so they are one object.
    have distinct := distinct_serializeGitTree ordered plain
    refine List.Perm.eq_of_pairwise ?_ wellFormed.sorted (sorted_serializeGitTree ordered plain) ?_
    · intro left right _ _ below above
      exact absurd above (lt_asymm below)
    · refine (List.perm_ext_iff_of_nodup (List.Nodup.of_map _ wellFormed.distinct)
        (List.Nodup.of_map _ distinct)).mpr fun item => ?_
      have byEntry : ∀ {data : GitTree Hash}, (data.map GitEntry.name).Nodup →
          (item ∈ data ↔ entryIn data item.name = some (item.type, item.hash)) := by
        intro data unique
        rw [entryIn_eq_some unique]
        constructor
        · intro member
          exact ⟨item, member, rfl, rfl⟩
        · rintro ⟨⟨name, type, hash⟩, member, rfl, same⟩
          obtain ⟨rfl, rfl⟩ := Prod.mk.inj same
          exact member
      rw [byEntry wellFormed.distinct, byEntry distinct, written, faithful, entry, here]

end Identical

/-- What an overlay should do: in the plain mode the result has at every path what it should have;
in the disjoint mode the computation fails exactly on the conflicts, and otherwise does the same;
and without its early return it would give back one of two identical trees. -/
def OverlaysPathwise (cas : Cas Hash) (disjoint : Bool) (depth : Nat) (base other : Hash) : Prop :=
  (if disjoint then
    ((∃ failure, computeTreeOverlay cas true depth (treeInfo base) (treeInfo other) =
        .error failure) ↔ Conflict (entry cas) base other) ∧
    ∀ result, computeTreeOverlay cas true depth (treeInfo base) (treeInfo other) =
        .ok (treeInfo result) →
      computeTreeOverlay cas false depth (treeInfo base) (treeInfo other) = .ok (treeInfo result) ∧
      ∀ path, (overlayAt cas path base other).Agrees (entryAt (entry cas) path result)
  else
    ∃ result, computeTreeOverlay cas false depth (treeInfo base) (treeInfo other) =
        .ok (treeInfo result) ∧
      ∀ path, (overlayAt cas path base other).Agrees (entryAt (entry cas) path result)) ∧
  (base = other → ∀ subcaller, mergeTrees cas disjoint subcaller (treeInfo base) (treeInfo other) =
    .ok (treeInfo base))

/-- No misread entry matters: none is taken over by the overlay, none makes or hides the only
conflict, and a tree that is merged with itself has none. -/
def ReadsPathwise (cas : Cas Hash) (disjoint : Bool) (base other : Hash) : Prop :=
  (if disjoint then
    (Conflict (readEntry cas) base other ↔ Conflict (entry cas) base other) ∧
    (¬ Conflict (entry cas) base other → Faithful cas base other)
  else Faithful cas base other) ∧
  (base = other → ∀ name, readEntry cas base name = entry cas base name)

theorem disjoint_iff {cas : Cas Hash} {depth : Nat} {base other : Hash}
    (baseGood : IsTree cas depth base) (otherGood : IsTree cas depth other) :
    (((∃ failure, computeTreeOverlay cas true depth (treeInfo base) (treeInfo other) =
        .error failure) ↔ Conflict (entry cas) base other) ∧
      ∀ result, computeTreeOverlay cas true depth (treeInfo base) (treeInfo other) =
          .ok (treeInfo result) →
        computeTreeOverlay cas false depth (treeInfo base) (treeInfo other) =
          .ok (treeInfo result) ∧
        ∀ path, (overlayAt cas path base other).Agrees (entryAt (entry cas) path result)) ↔
    (Conflict (readEntry cas) base other ↔ Conflict (entry cas) base other) ∧
      (¬ Conflict (entry cas) base other → Faithful cas base other) := by
  obtain ⟨result, computed, merged⟩ := computeTreeOverlay_plain baseGood otherGood
  obtain ⟨fails, agrees⟩ := computeTreeOverlay_disjoint baseGood otherGood
  have pathwise := agrees_iff_faithful baseGood otherGood merged
  have fails_iff : (∃ failure, computeTreeOverlay cas true depth (treeInfo base) (treeInfo other) =
      .error failure) ↔ Conflict (readEntry cas) base other := by
    refine ⟨fun ⟨failure, failed⟩ => ?_, fails⟩
    by_contra noConflict
    rw [agrees noConflict, computed] at failed
    cases failed
  rw [fails_iff]
  refine and_congr_right fun conflicts => ?_
  constructor
  · intro succeeds noConflict
    have unread : ¬ Conflict (readEntry cas) base other := fun seen => noConflict (conflicts.mp seen)
    exact pathwise.mp (succeeds result ((agrees unread).trans computed)).2
  · intro faithful other succeeded
    have unread : ¬ Conflict (readEntry cas) base _ := fun seen => by
      obtain ⟨failure, failed⟩ := fails seen
      rw [failed] at succeeded
      cases succeeded
    rw [agrees unread] at succeeded
    refine ⟨succeeded, ?_⟩
    rw [computed, ok.injEq, entryInfo_inj, Prod.mk.injEq] at succeeded
    rw [← succeeded.2]
    exact pathwise.mpr (faithful fun seen => unread (conflicts.mpr seen))

/-- The overlay of two trees is what it should be exactly when no misread entry matters. -/
theorem overlaysPathwise_iff (cas : Cas Hash) (disjoint : Bool) (depth : Nat) (base other : Hash)
    (baseGood : IsTree cas depth base) (otherGood : IsTree cas depth other) :
    OverlaysPathwise cas disjoint depth base other ↔ ReadsPathwise cas disjoint base other := by
  refine and_congr ?_ ?_
  · cases disjoint with
    | true => exact disjoint_iff baseGood otherGood
    | false =>
      obtain ⟨result, computed, merged⟩ := computeTreeOverlay_plain baseGood otherGood
      have pathwise := agrees_iff_faithful baseGood otherGood merged
      simp only [false_eq_true, if_false]
      constructor
      · rintro ⟨found, same, agrees⟩
        rw [computed, ok.injEq, entryInfo_inj, Prod.mk.injEq] at same
        rw [← same.2] at agrees
        exact pathwise.mp agrees
      · exact fun faithful => ⟨result, computed, pathwise.mpr faithful⟩
  · refine forall_congr' fun same => ?_
    subst same
    cases depth with
    | zero => exact absurd baseGood (by simp [IsTree])
    | succ depth =>
      constructor
      · exact fun recursive => (mergeTrees_same disjoint (fun _ _ => .error .unfinished)
          baseGood).mp (recursive _)
      · exact fun faithful subcaller => (mergeTrees_same disjoint subcaller baseGood).mpr faithful

/-- Ids of objects that are their own content: a blob, or a tree by its entries. -/
inductive ObjectId where
  | blob (content : Nat)
  | empty
  | entry (name : Str) (type : Tree.ObjectType) (hash rest : ObjectId)
deriving DecidableEq

/-- The tree object of an id. -/
def ObjectId.retrieve : ObjectId → Option (GitTree ObjectId)
  | .blob _ => none
  | .empty => some []
  | .entry name type hash rest => rest.retrieve.map (⟨name, type, hash⟩ :: ·)

/-- The store of the objects that are their own ids. -/
def plainCas : Cas ObjectId where
  treeId data := data.foldr (fun item rest => .entry item.name item.type item.hash rest) .empty
  retrieve := ObjectId.retrieve
  addressed := by
    intro hash data
    induction hash generalizing data with
    | blob content => cases data <;> simp [ObjectId.retrieve]
    | empty => cases data <;> simp [ObjectId.retrieve]
    | entry name type hash rest _ step =>
      cases data with
      | nil => simp [ObjectId.retrieve]
      | cons item data =>
        simp only [ObjectId.retrieve, map_eq_some_iff, List.cons.injEq, List.foldr_cons,
          ObjectId.entry.injEq]
        constructor
        · rintro ⟨found, present, rfl, rfl⟩
          exact ⟨rfl, rfl, rfl, (step _).mp present⟩
        · rintro ⟨rfl, rfl, rfl, same⟩
          exact ⟨data, (step data).mpr same, rfl, rfl⟩

/-- A tree with one file. -/
def oneFile : ObjectId := plainCas.treeId [⟨lit "a", .file, .blob 0⟩]

/-- A tree with a file and an executable of one content. -/
def twins : ObjectId :=
  plainCas.treeId [⟨lit "b", .file, .blob 1⟩, ⟨lit "c", .executable, .blob 1⟩]

theorem readEntry_uniform {cas : Cas Hash} {tree : Hash}
    (uniform : ∀ left ∈ contents cas tree, ∀ right ∈ contents cas tree,
      left.hash = right.hash → left.type = right.type) (name : Str) :
    readEntry cas tree name = entry cas tree name := by
  unfold readEntry misreadIn entry
  cases found : entryIn (contents cas tree) name with
  | none => rfl
  | some item =>
    obtain ⟨item, present, rfl⟩ := map_eq_some_iff.mp found
    have member := List.mem_of_find?_eq_some present
    cases first : (contents cas tree).find? fun other => other.hash = item.hash with
    | none =>
      have unseen := List.find?_eq_none.mp first item member
      simp at unseen
    | some front =>
      have same := uniform front (List.mem_of_find?_eq_some first) item member
        (by simpa using List.find?_some first)
      simp [firstType, first, same]

omit [DecidableEq Hash] in
theorem isTree_flat {cas : Cas Hash} {data : GitTree Hash} (wellFormed : WellFormed data)
    (blobs : ∀ item ∈ data, item.type ≠ .tree ∧ cas.retrieve item.hash = none) :
    IsTree cas 1 (cas.treeId data) := by
  refine ⟨data, (cas.addressed _ _).mpr rfl, wellFormed, fun item member => ?_⟩
  rw [if_neg (blobs item member).1]
  exact (blobs item member).2

theorem oneFile_isTree : IsTree plainCas 1 oneFile :=
  isTree_flat ⟨by decide, by decide, by decide⟩ (by decide)

theorem oneFile_overlaid : OverlaysPathwise plainCas true 1 oneFile oneFile := by
  have read : ∀ name, readEntry plainCas oneFile name = entry plainCas oneFile name :=
    readEntry_uniform (by decide)
  refine (overlaysPathwise_iff plainCas true 1 oneFile oneFile oneFile_isTree oneFile_isTree).mpr
    ⟨⟨?_, ?_⟩, fun _ => read⟩
  · exact ⟨fun seen => absurd seen conflict_irrefl, fun seen => absurd seen conflict_irrefl⟩
  · intro _ path left right leftAt rightAt differ
    rw [leftAt] at rightAt
    exact absurd (congrArg snd (some.inj rightAt)) differ

theorem twins_not_overlaid : ¬ OverlaysPathwise plainCas false 1 oneFile twins := by
  rintro ⟨⟨result, computed, agrees⟩, -⟩
  have written : computeTreeOverlay plainCas false 1 (treeInfo oneFile) (treeInfo twins) =
      .ok (treeInfo (plainCas.treeId [⟨lit "a", .file, .blob 0⟩, ⟨lit "b", .file, .blob 1⟩,
        ⟨lit "c", .file, .blob 1⟩])) := by decide
  rw [written, ok.injEq, entryInfo_inj, Prod.mk.injEq] at computed
  have wanted : overlayAt plainCas [lit "c"] oneFile twins =
      .entry (some (.executable, .blob 1)) := rfl
  have found := agrees [lit "c"]
  rw [← computed.2, wanted] at found
  have misread : some (Tree.ObjectType.file, ObjectId.blob 1) = some (.executable, .blob 1) := found
  cases misread

end Jst.Verif.TreeOverlay
