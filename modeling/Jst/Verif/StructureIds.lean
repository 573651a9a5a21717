import Jst.Tree.Structure
import Jst.Verif.TreeObjects
/-!
# What tree structures are

The structure of a git tree is the tree with the same names and types, where every blob is empty.
It is determined by the paths of the tree and their types, however the tree was read, whatever was
found in the cache.
-/
namespace Jst.Verif.TreeStructures

open SortedMap Tree TreeStructure TreeOverlay

variable {Hash : Type} {objects : GitObjects Hash}

variable {depth : Nat} {tree : Hash}

/-! ## Structures -/

/-- A git tree nested at most so many levels deep, of which all tree objects are present. -/
def GitTreeIn (objects : GitObjects Hash) (present : Hash → Bool) : Nat → Hash → Prop
  | 0, _ => False
  | depth + 1, tree => present tree = true ∧ ∃ data, objects.retrieve tree = some data ∧
      WellFormed data ∧ ∀ item ∈ data, item.type = .tree → GitTreeIn objects present depth item.hash

/-- A git tree, wherever its objects are. -/
abbrev IsGitTree (objects : GitObjects Hash) : Nat → Hash → Prop :=
  GitTreeIn objects fun _ => true

/-- An item of a structure, for an item of a tree. -/
def structureItem (objects : GitObjects Hash) (structureOf : Hash → Hash) (item : GitEntry Hash) :
    GitEntry Hash :=
  { item with hash := if item.type = .tree then structureOf item.hash else objects.blobId [] }

/-- The structure of a tree that is nested at most so many levels deep. -/
def structureId (objects : GitObjects Hash) : Nat → Hash → Hash
  | 0, tree => tree
  | depth + 1, tree => objects.treeId
      ((contents objects.toCas tree).map (structureItem objects (structureId objects depth)))

theorem GitTreeIn.mono {before after : Hash → Bool}
    (kept : ∀ hash, before hash = true → after hash = true)
    (isTree : GitTreeIn objects before depth tree) : GitTreeIn objects after depth tree := by
  induction depth generalizing tree with
  | zero => exact isTree
  | succ depth step =>
    obtain ⟨present, data, found, wellFormed, deeper⟩ := isTree
    exact ⟨kept tree present, data, found, wellFormed,
      fun item inside type => step (deeper item inside type)⟩

theorem GitTreeIn.isGitTree {present : Hash → Bool} (isTree : GitTreeIn objects present depth tree) :
    IsGitTree objects depth tree :=
  isTree.mono fun _ _ => rfl

variable {data left right : GitTree Hash}

theorem contents_of_retrieve (found : objects.retrieve tree = some data) :
    contents objects.toCas tree = data := by
  rw [contents, found, getD_some]

theorem contents_treeId (data : GitTree Hash) :
    contents objects.toCas (objects.treeId data) = data :=
  contents_of_retrieve ((objects.addressed _ _).mpr rfl)

theorem wellFormed_structure (wellFormed : WellFormed data) (structureOf : Hash → Hash) :
    WellFormed (data.map (structureItem objects structureOf)) where
  distinct := by
    rw [map_map]
    exact wellFormed.distinct
  plain := by
    intro item inside
    obtain ⟨given, member, rfl⟩ := mem_map.mp inside
    exact wellFormed.plain given member
  sorted := pairwise_map.mpr wellFormed.sorted

variable {other : Nat}

theorem structureId_depth (isTree : IsGitTree objects depth tree)
    (otherTree : IsGitTree objects other tree) :
    structureId objects depth tree = structureId objects other tree := by
  induction depth generalizing other tree with
  | zero => exact isTree.elim
  | succ depth step =>
    cases other with
    | zero => exact otherTree.elim
    | succ other =>
      obtain ⟨-, data, found, -, deeper⟩ := isTree
      obtain ⟨-, data', found', -, deeper'⟩ := otherTree
      rw [found] at found'
      cases found'
      rw [structureId, structureId, contents_of_retrieve found]
      congr 1
      refine map_congr_left fun item inside => ?_
      unfold structureItem
      by_cases type : item.type = .tree
      · rw [if_pos type, if_pos type, step (deeper item inside type) (deeper' item inside type)]
      · rw [if_neg type, if_neg type]

theorem isGitTree_structureId (isTree : IsGitTree objects depth tree) :
    IsGitTree objects depth (structureId objects depth tree) := by
  induction depth generalizing tree with
  | zero => exact isTree.elim
  | succ depth step =>
    obtain ⟨-, data, found, wellFormed, deeper⟩ := isTree
    rw [structureId, contents_of_retrieve found]
    refine ⟨rfl, _, (objects.addressed _ _).mpr rfl, wellFormed_structure wellFormed _,
      fun item inside type => ?_⟩
    obtain ⟨given, member, rfl⟩ := mem_map.mp inside
    have isTree : given.type = .tree := type
    rw [structureItem, if_pos isTree]
    exact step (deeper given member isTree)

theorem structureId_idem (isTree : IsGitTree objects depth tree) :
    structureId objects depth (structureId objects depth tree) = structureId objects depth tree := by
  induction depth generalizing tree with
  | zero => exact isTree.elim
  | succ depth step =>
    obtain ⟨-, data, found, wellFormed, deeper⟩ := isTree
    have here : structureId objects (depth + 1) tree =
        objects.treeId (data.map (structureItem objects (structureId objects depth))) := by
      rw [structureId, contents_of_retrieve found]
    rw [here, structureId, contents_treeId, map_map]
    congr 1
    refine map_congr_left fun item inside => ?_
    by_cases type : item.type = .tree
    · simp only [comp_apply, structureItem, if_pos type, step (deeper item inside type)]
    · simp only [comp_apply, structureItem, if_neg type]

/-! ## Paths and types -/

/-- The type of what a tree has at a path. -/
def typeAt (objects : GitObjects Hash) (path : List Str) (tree : Hash) : Option Tree.ObjectType :=
  (entryAt (entry objects.toCas) path tree).map fst

/-- Two trees have the same paths with the same types. -/
def SameShape (objects : GitObjects Hash) (left right : Hash) : Prop :=
  ∀ path, typeAt objects path left = typeAt objects path right

/-- What is not a tree has empty content. -/
def HasEmptyBlobs (objects : GitObjects Hash) (tree : Hash) : Prop :=
  ∀ path type hash, entryAt (entry objects.toCas) path tree = some (type, hash) → type ≠ .tree →
    objects.blob hash = some []

theorem entry_structureId (tree : Hash) (name : Str) :
    entry objects.toCas (structureId objects (depth + 1) tree) name =
      (entry objects.toCas tree name).map fun item =>
        (item.1, if item.1 = .tree then structureId objects depth item.2 else objects.blobId []) := by
  rw [entry, structureId, contents_treeId, entry, entryIn, entryIn, List.find?_map, Option.map_map,
    Option.map_map]
  rfl

theorem entryAt_structureId (isTree : IsGitTree objects depth tree) (path : List Str) :
    (entryAt (entry objects.toCas) path (structureId objects depth tree)).map fst =
        (entryAt (entry objects.toCas) path tree).map fst ∧
      ∀ type hash, entryAt (entry objects.toCas) path (structureId objects depth tree) =
        some (type, hash) → type ≠ .tree → hash = objects.blobId [] := by
  induction path generalizing depth tree with
  | nil => exact ⟨rfl, fun type hash same noTree => absurd (by cases same; rfl) noTree⟩
  | cons name path step =>
    cases depth with
    | zero => exact isTree.elim
    | succ depth =>
      obtain ⟨-, data, found, wellFormed, deeper⟩ := isTree
      rw [entryAt_cons, entryAt_cons, entry_structureId]
      cases here : entry objects.toCas tree name with
      | none => exact ⟨rfl, fun type hash same => by cases same⟩
      | some item =>
        obtain ⟨type, hash⟩ := item
        simp only [map_some, bind_some]
        by_cases isTree : type = .tree
        · rw [if_pos isTree, if_pos isTree, if_pos isTree]
          rw [entry, contents_of_retrieve found, entryIn_eq_some wellFormed.distinct] at here
          obtain ⟨given, member, -, same⟩ := here
          have below := deeper given member ((congrArg fst same).trans isTree)
          rw [show given.hash = hash from congrArg snd same] at below
          exact step below
        · rw [if_neg isTree, if_neg isTree, if_neg isTree]
          by_cases last : path = []
          · rw [if_pos last, if_pos last]
            exact ⟨rfl, fun type hash same _ => by cases same; rfl⟩
          · rw [if_neg last, if_neg last]
            exact ⟨rfl, fun type hash same => by cases same⟩

theorem sameShape_structureId (isTree : IsGitTree objects depth tree) :
    SameShape objects (structureId objects depth tree) tree :=
  fun path => (entryAt_structureId isTree path).1

theorem hasEmptyBlobs_structureId (isTree : IsGitTree objects depth tree) :
    HasEmptyBlobs objects (structureId objects depth tree) := by
  intro path type hash reached noTree
  rw [(entryAt_structureId isTree path).2 type hash reached noTree, objects.blobAddressed]

theorem counterpart (leftGood : WellFormed left) (rightGood : WellFormed right)
    (same : ∀ name, (entryIn left name).map fst = (entryIn right name).map fst)
    {item : GitEntry Hash} (inside : item ∈ left) :
    ∃ other ∈ right, other.name = item.name ∧ other.type = item.type := by
  have found := (entryIn_eq_some leftGood.distinct).mpr ⟨item, inside, rfl, rfl⟩
  have types := same item.name
  rw [found] at types
  obtain ⟨⟨type, hash⟩, present, sameType⟩ := map_eq_some_iff.mp types.symm
  obtain ⟨other, member, named, shown⟩ := (entryIn_eq_some rightGood.distinct).mp present
  exact ⟨other, member, named, (congrArg fst shown).trans sameType⟩

theorem map_eq_of_entryIn {Result : Type} (leftGood : WellFormed left)
    (rightGood : WellFormed right) (leftMap rightMap : GitEntry Hash → Result)
    (same : ∀ name, (entryIn left name).map fst = (entryIn right name).map fst)
    (agree : ∀ item ∈ left, ∀ other ∈ right, other.name = item.name → other.type = item.type →
      leftMap item = rightMap other) : left.map leftMap = right.map rightMap := by
  have leftOrdered : Ascending
      (left.map fun item => (sortName item.name item.type, leftMap item)) :=
    pairwise_map.mpr leftGood.sorted
  have rightOrdered : Ascending
      (right.map fun item => (sortName item.name item.type, rightMap item)) :=
    pairwise_map.mpr rightGood.sorted
  have keyed : (left.map fun item => (sortName item.name item.type, leftMap item)) =
      right.map fun item => (sortName item.name item.type, rightMap item) := by
    refine ext_find leftOrdered rightOrdered fun key => Option.ext fun value => ?_
    rw [← mem_iff_find leftOrdered, ← mem_iff_find rightOrdered, mem_map, mem_map]
    constructor
    · rintro ⟨item, inside, shown⟩
      obtain ⟨other, member, named, type⟩ := counterpart leftGood rightGood same inside
      exact ⟨other, member, by rw [named, type, ← agree item inside other member named type, shown]⟩
    · rintro ⟨other, member, shown⟩
      obtain ⟨item, inside, named, type⟩ :=
        counterpart rightGood leftGood (fun name => (same name).symm) member
      exact ⟨item, inside,
        by rw [named, type, agree item inside other member named.symm type.symm, shown]⟩
  have values := congrArg (List.map snd) keyed
  rwa [map_map, map_map] at values

theorem structureId_eq_of_sameShape {left right : Hash}
    (leftTree : IsGitTree objects depth left) (rightTree : IsGitTree objects other right)
    (same : SameShape objects left right) :
    structureId objects depth left = structureId objects other right := by
  induction depth generalizing other left right with
  | zero => exact leftTree.elim
  | succ depth step =>
    cases other with
    | zero => exact rightTree.elim
    | succ other =>
      obtain ⟨-, leftData, leftFound, leftGood, leftDeeper⟩ := leftTree
      obtain ⟨-, rightData, rightFound, rightGood, rightDeeper⟩ := rightTree
      have names : ∀ name,
          (entryIn leftData name).map fst = (entryIn rightData name).map fst := by
        intro name
        have here := same [name]
        rwa [typeAt, typeAt, entryAt_singleton, entryAt_singleton, entry, entry,
          contents_of_retrieve leftFound, contents_of_retrieve rightFound] at here
      rw [structureId, structureId, contents_of_retrieve leftFound, contents_of_retrieve rightFound]
      congr 1
      refine map_eq_of_entryIn leftGood rightGood _ _ names
        fun item inside other' member named type => ?_
      unfold structureItem
      by_cases isTree : item.type = .tree
      · have isTree' : other'.type = .tree := type.trans isTree
        have leftEntry : entry objects.toCas left item.name = some (.tree, item.hash) := by
          rw [entry, contents_of_retrieve leftFound, entryIn_eq_some leftGood.distinct]
          exact ⟨item, inside, rfl, by rw [isTree]⟩
        have rightEntry : entry objects.toCas right item.name = some (.tree, other'.hash) := by
          rw [entry, contents_of_retrieve rightFound, entryIn_eq_some rightGood.distinct]
          exact ⟨other', member, named, by rw [isTree']⟩
        have below : SameShape objects item.hash other'.hash := by
          intro path
          have here := same (item.name :: path)
          rwa [typeAt, typeAt, entryAt_cons, entryAt_cons, leftEntry, rightEntry] at here
        rw [if_pos isTree, if_pos isTree', step (leftDeeper item inside isTree)
          (rightDeeper other' member isTree') below, named, type]
      · rw [if_neg isTree, if_neg fun isTree' => isTree (type.symm.trans isTree'), named, type]

theorem structureId_eq_iff {left right : Hash}
    (leftTree : IsGitTree objects depth left) (rightTree : IsGitTree objects other right) :
    structureId objects depth left = structureId objects other right ↔
      SameShape objects left right := by
  refine ⟨fun same path => ?_, structureId_eq_of_sameShape leftTree rightTree⟩
  have leftPath : typeAt objects path _ = _ := sameShape_structureId leftTree path
  have rightPath : typeAt objects path _ = _ := sameShape_structureId rightTree path
  rw [← leftPath, same, rightPath]

end Jst.Verif.TreeStructures
