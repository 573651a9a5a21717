import Jst.Execution.DirectoryTree
import Jst.Verif.TreeObjects
import Jst.Utils.NormalPath
import Jst.Data.Loops
/-!
# Directory trees hold what was added

Adding an artifact to a directory tree succeeds exactly if its path is no front of a path in the
tree and no path in the tree is a front of it. So the leaves of a tree are what was added, in any
order. The git tree objects list the nodes of each directory once, in the order of git.
-/
namespace Jst.Verif.DirectoryTrees

open Jst.Tree Execution Execution.DirectoryTree

variable {Artifact : Type}

variable {more sub : DirectoryTree Artifact} {artifacts : List (Str × Artifact)} {name : Str}

/-- The names of the nodes of a directory. -/
def names : DirectoryTree Artifact → List Str
  | .nil => []
  | .directory name _ rest => name :: names rest
  | .artifact name _ rest => name :: names rest

/-- The artifacts of a tree with their paths. -/
def leaves : DirectoryTree Artifact → List (List Str × Artifact)
  | .nil => []
  | .directory name sub rest =>
    (leaves sub).map (fun leaf => (name :: leaf.1, leaf.2)) ++ leaves rest
  | .artifact name value rest => ([name], value) :: leaves rest

/-- A tree as it is built: the nodes have different names, and every directory below has some. -/
def Proper : DirectoryTree Artifact → Prop
  | .nil => True
  | .directory name sub rest => name ∉ names rest ∧ sub ≠ .nil ∧ Proper sub ∧ Proper rest
  | .artifact name _ rest => name ∉ names rest ∧ Proper rest

/-- Neither path is a front of the other one. -/
def Apart (left right : List Str) : Prop := ¬ left <+: right ∧ ¬ right <+: left

/-- No path in a tree stands in the way of a path. -/
def Free (path : List Str) (tree : DirectoryTree Artifact) : Prop :=
  ∀ leaf ∈ leaves tree, Apart leaf.1 path

/-- The result of adding an artifact under a path to a tree: it is added if the path is free. -/
def Adds (path : List Str) (value : Artifact) (tree : DirectoryTree Artifact)
    (result : Option (DirectoryTree Artifact)) : Prop :=
  (Free path tree → ∃ next, result = some next ∧ Proper next ∧ next ≠ .nil ∧
    (leaves next).Perm ((path, value) :: leaves tree) ∧
    ∀ name ∈ names next, name ∈ names tree ∨ path.head? = some name) ∧
  (¬ Free path tree → result = none)

variable {value : Artifact} {tree next : DirectoryTree Artifact} {segment : Str} {path : List Str}

variable {left right : List Str}

theorem apart_cons (name : Str) : Apart (name :: left) (name :: right) ↔ Apart left right := by
  simp [Apart, cons_prefix_cons]

theorem apart_of_ne {other : Str} (differ : name ≠ other) :
    Apart (name :: left) (other :: right) := by
  simp [Apart, cons_prefix_cons, differ, Ne.symm differ]

theorem path_of_mem {leaf : List Str × Artifact} (member : leaf ∈ leaves tree) :
    ∃ name rest, leaf.1 = name :: rest ∧ name ∈ names tree := by
  induction tree with
  | nil => exact absurd member not_mem_nil
  | directory name sub more _ step =>
    rw [leaves] at member
    cases mem_append.mp member with
    | inl inside =>
      obtain ⟨below, _, rfl⟩ := mem_map.mp inside
      exact ⟨name, below.1, rfl, mem_cons_self⟩
    | inr inside =>
      obtain ⟨other, rest, split, found⟩ := step inside
      exact ⟨other, rest, split, mem_cons_of_mem _ found⟩
  | artifact name value more step =>
    rw [leaves] at member
    cases mem_cons.mp member with
    | inl same => exact ⟨name, [], same ▸ rfl, mem_cons_self⟩
    | inr inside =>
      obtain ⟨other, rest, split, found⟩ := step inside
      exact ⟨other, rest, split, mem_cons_of_mem _ found⟩

theorem free_of_notMem (fresh : segment ∉ names tree) : Free (segment :: path) tree := by
  intro leaf member
  obtain ⟨name, rest, split, inside⟩ := path_of_mem member
  rw [split]
  exact apart_of_ne fun same => fresh (same ▸ inside)

theorem leaves_ne_nil (proper : Proper tree) (nodes : tree ≠ .nil) : leaves tree ≠ [] := by
  induction tree with
  | nil => exact absurd rfl nodes
  | directory name sub more down _ =>
    intro none'
    rw [leaves, List.append_eq_nil_iff, List.map_eq_nil_iff] at none'
    exact down proper.2.2.1 proper.2.1 none'.1
  | artifact name value more _ => exact cons_ne_nil _ _

theorem free_directory (fresh : name ∉ names more) :
    Free (name :: path) (.directory name sub more) ↔ Free path sub := by
  constructor
  · intro free leaf member
    exact (apart_cons name).mp
      (free (name :: leaf.1, leaf.2) (mem_append_left _ (mem_map.mpr ⟨leaf, member, rfl⟩)))
  · intro free leaf member
    rw [leaves] at member
    cases mem_append.mp member with
    | inl inside =>
      obtain ⟨below, found, rfl⟩ := mem_map.mp inside
      exact (apart_cons name).mpr (free below found)
    | inr inside => exact free_of_notMem fresh leaf inside

theorem free_directory_of_ne (differ : name ≠ segment) :
    Free (segment :: path) (.directory name sub more) ↔ Free (segment :: path) more := by
  constructor
  · exact fun free leaf member => free leaf (mem_append_right _ member)
  · intro free leaf member
    rw [leaves] at member
    cases mem_append.mp member with
    | inl inside =>
      obtain ⟨below, _, rfl⟩ := mem_map.mp inside
      exact apart_of_ne differ
    | inr inside => exact free leaf inside

variable {other : Artifact}

theorem free_artifact_of_ne (differ : name ≠ segment) :
    Free (segment :: path) (.artifact name other more) ↔ Free (segment :: path) more := by
  constructor
  · exact fun free leaf member => free leaf (mem_cons_of_mem _ member)
  · intro free leaf member
    rw [leaves] at member
    cases mem_cons.mp member with
    | inl same =>
      subst same
      exact apart_of_ne differ
    | inr inside => exact free leaf inside

theorem not_free_artifact : ¬ Free (name :: path) (.artifact name other more) := fun free =>
  (free ([name], other) mem_cons_self).1 ⟨path, rfl⟩

theorem not_free_single (proper : Proper (.directory name sub more)) :
    ¬ Free [name] (.directory name sub more) := by
  intro free
  obtain ⟨leaf, member⟩ := List.exists_mem_of_ne_nil _ (leaves_ne_nil proper.2.2.1 proper.2.1)
  exact (free (name :: leaf.1, leaf.2)
    (mem_append_left _ (mem_map.mpr ⟨leaf, member, rfl⟩))).2 ⟨leaf.1, rfl⟩

variable {result : Option (DirectoryTree Artifact)}

theorem Adds.behind_directory
    (added : Adds (segment :: path) value more result) (differ : name ≠ segment)
    (proper : Proper (.directory name sub more)) :
    Adds (segment :: path) value (.directory name sub more) (result.map (directory name sub)) := by
  obtain ⟨fresh, some', properSub, properMore⟩ := proper
  unfold Adds
  rw [free_directory_of_ne differ]
  constructor
  · intro free
    obtain ⟨next, rfl, properNext, -, same, named⟩ := added.1 free
    refine ⟨.directory name sub next, rfl, ⟨fun inside => ?_, some', properSub, properNext⟩,
      by simp, ?_, fun other inside => ?_⟩
    · cases named name inside with
      | inl old => exact fresh old
      | inr same => exact differ (some.inj same).symm
    · rw [leaves, leaves]
      exact (same.append_left _).trans List.perm_middle
    · cases mem_cons.mp inside with
      | inl same => exact .inl (mem_cons.mpr (.inl same))
      | inr further => exact (named other further).imp_left (mem_cons_of_mem _)
  · intro blocked
    rw [added.2 blocked]
    rfl

theorem Adds.behind_artifact
    (added : Adds (segment :: path) value more result) (differ : name ≠ segment)
    (proper : Proper (.artifact name other more)) :
    Adds (segment :: path) value (.artifact name other more) (result.map (artifact name other)) := by
  obtain ⟨fresh, properMore⟩ := proper
  unfold Adds
  rw [free_artifact_of_ne differ]
  constructor
  · intro free
    obtain ⟨next, rfl, properNext, -, same, named⟩ := added.1 free
    refine ⟨.artifact name other next, rfl, ⟨fun inside => ?_, properNext⟩, by simp, ?_,
      fun found inside => ?_⟩
    · cases named name inside with
      | inl old => exact fresh old
      | inr same => exact differ (some.inj same).symm
    · rw [leaves, leaves]
      exact (same.cons _).trans (.swap _ _ _)
    · cases mem_cons.mp inside with
      | inl same => exact .inl (mem_cons.mpr (.inl same))
      | inr further => exact (named found further).imp_left (mem_cons_of_mem _)
  · intro blocked
    rw [added.2 blocked]
    rfl

theorem adds_emplace (proper : Proper tree) :
    Adds [segment] value tree (DirectoryTree.emplace segment value tree) := by
  induction tree with
  | nil =>
    refine ⟨fun _ => ⟨.artifact segment value .nil, rfl, ⟨not_mem_nil, trivial⟩, by simp,
      .refl _, by simp [names]⟩, fun blocked => absurd ?_ blocked⟩
    exact free_of_notMem not_mem_nil
  | directory name sub more _ step =>
    rw [DirectoryTree.emplace]
    by_cases same : name = segment
    · subst same
      rw [if_pos rfl]
      exact ⟨fun free => absurd free (not_free_single proper), fun _ => rfl⟩
    · rw [if_neg same]
      exact (step proper.2.2.2).behind_directory same proper
  | artifact name other more step =>
    rw [DirectoryTree.emplace]
    by_cases same : name = segment
    · subst same
      rw [if_pos rfl]
      exact ⟨fun free => absurd free not_free_artifact, fun _ => rfl⟩
    · rw [if_neg same]
      exact (step proper.2).behind_artifact same proper

variable {add : DirectoryTree Artifact → Option (DirectoryTree Artifact)}

theorem adds_descend
    (adds : ∀ tree, Proper tree → Adds path value tree (add tree)) (proper : Proper tree) :
    Adds (segment :: path) value tree (descend segment add tree) := by
  induction tree with
  | nil =>
    rw [descend]
    have here := adds .nil trivial
    constructor
    · intro _
      obtain ⟨next, added, properNext, some', same, -⟩ := here.1 fun _ absurd' => nomatch absurd'
      rw [added]
      refine ⟨.directory segment next .nil, rfl, ⟨not_mem_nil, some', properNext, trivial⟩,
        by simp, ?_, by simp [names]⟩
      rw [leaves, leaves, leaves, append_nil]
      exact same.map fun leaf => (segment :: leaf.1, leaf.2)
    · exact fun blocked => absurd (free_of_notMem not_mem_nil) blocked
  | directory name sub more _ step =>
    rw [descend]
    by_cases same : name = segment
    · subst same
      rw [if_pos rfl]
      obtain ⟨fresh, some', properSub, properMore⟩ := proper
      have here := adds sub properSub
      unfold Adds
      rw [free_directory fresh]
      constructor
      · intro free
        obtain ⟨next, added, properNext, some', same, -⟩ := here.1 free
        rw [added]
        refine ⟨.directory name next more, rfl, ⟨fresh, some', properNext, properMore⟩, by simp, ?_,
          fun other inside => .inl inside⟩
        rw [leaves, leaves]
        exact (same.map fun leaf => (name :: leaf.1, leaf.2)).append_right _
      · intro blocked
        rw [here.2 blocked]
        rfl
    · rw [if_neg same]
      exact (step proper.2.2.2).behind_directory same proper
  | artifact name other more step =>
    rw [descend]
    by_cases same : name = segment
    · subst same
      rw [if_pos rfl]
      exact ⟨fun free => absurd free not_free_artifact, fun _ => rfl⟩
    · rw [if_neg same]
      exact (step proper.2).behind_artifact same proper

theorem adds_addSegments (some' : path ≠ []) (plain : Path.here ∉ path ∧ Path.up ∉ path)
    (proper : Proper tree) : Adds path value tree (addSegments value path tree) := by
  induction path generalizing tree with
  | nil => exact absurd rfl some'
  | cons segment rest step =>
    simp only [mem_cons, not_or] at plain
    rw [addSegments, if_neg (by simp [Ne.symm plain.1.1, Ne.symm plain.2.1])]
    by_cases last : rest = []
    · subst last
      rw [if_pos rfl]
      exact adds_emplace proper
    · rw [if_neg last]
      exact adds_descend (fun _ => step last ⟨plain.1.2, plain.2.2⟩) proper

theorem descend_eq_none (fails : ∀ tree, add tree = none) (tree : DirectoryTree Artifact) :
    descend segment add tree = none := by
  induction tree with
  | nil => simp [descend, fails]
  | directory name sub more _ step => simp [descend, fails, step]
  | artifact name other more step => simp [descend, step]

theorem addSegments_special (special : Path.here ∈ path ∨ Path.up ∈ path)
    (tree : DirectoryTree Artifact) : addSegments value path tree = none := by
  induction path generalizing tree with
  | nil => rfl
  | cons segment rest step =>
    rw [addSegments]
    by_cases here : segment = Path.here ∨ segment = Path.up
    · rw [if_pos here]
    · rw [if_neg here]
      have later : Path.here ∈ rest ∨ Path.up ∈ rest := by
        simp only [mem_cons] at special
        obtain (same | inside) | (same | inside) := special
        · exact absurd (.inl same.symm) here
        · exact .inl inside
        · exact absurd (.inr same.symm) here
        · exact .inr inside
      rw [if_neg (by rintro rfl; simp at later)]
      exact descend_eq_none (step later) tree

/-- When artifacts can be added one after the other: no path has special segments, no two of them
are in each other's way, and none has something in the way in the tree. -/
def Addable (artifacts : List (List Str × Artifact)) (tree : DirectoryTree Artifact) : Prop :=
  (∀ artifact ∈ artifacts, Path.here ∉ artifact.1 ∧ Path.up ∉ artifact.1) ∧
  artifacts.Pairwise (fun left right => Apart left.1 right.1) ∧
  ∀ artifact ∈ artifacts, Free artifact.1 tree

theorem foldlM_addSegments {artifacts : List (List Str × Artifact)}
    (some' : ∀ artifact ∈ artifacts, artifact.1 ≠ []) (proper : Proper tree) :
    (Addable artifacts tree → ∃ next,
      artifacts.foldlM (fun tree artifact => addSegments artifact.2 artifact.1 tree) tree = some next ∧
      Proper next ∧ (leaves next).Perm (artifacts ++ leaves tree)) ∧ (¬ Addable artifacts tree →
      artifacts.foldlM (fun tree artifact => addSegments artifact.2 artifact.1 tree) tree = none) := by
  induction artifacts generalizing tree with
  | nil => exact ⟨fun _ => ⟨tree, rfl, proper, .refl _⟩, fun never => absurd (by simp [Addable]) never⟩
  | cons first rest step =>
    obtain ⟨path, value⟩ := first
    have nonempty : path ≠ [] := some' _ mem_cons_self
    have others := (forall_mem_cons.mp some').2
    rw [foldlM_cons]
    by_cases plain : Path.here ∉ path ∧ Path.up ∉ path
    · have added := @adds_addSegments _ value _ _ nonempty plain proper
      by_cases free : Free path tree
      · obtain ⟨next, success, properNext, -, same, -⟩ := added.1 free
        have stands : ∀ other, Free other next ↔ Apart path other ∧ Free other tree := by
          intro other
          simp only [Free, same.mem_iff, mem_cons, forall_eq_or_imp]
        have again : Addable ((path, value) :: rest) tree ↔ Addable rest next := by
          simp only [Addable, mem_cons, forall_eq_or_imp, pairwise_cons, stands, plain.1,
            plain.2, free, true_and, not_false_eq_true]
          constructor
          · rintro ⟨special, ⟨apart, pairs⟩, free⟩
            exact ⟨special, pairs, fun artifact inside => ⟨apart _ inside, free _ inside⟩⟩
          · rintro ⟨special, pairs, both⟩
            exact ⟨special, ⟨fun artifact inside => (both _ inside).1, pairs⟩,
              fun artifact inside => (both _ inside).2⟩
        rw [success, again]
        refine ⟨fun addable => ?_, (step others properNext).2⟩
        obtain ⟨last, success, properLast, same'⟩ := (step others properNext).1 addable
        exact ⟨last, success, properLast,
          (same'.trans (same.append_left rest)).trans List.perm_middle⟩
      · refine ⟨fun addable => absurd (addable.2.2 _ mem_cons_self) free, fun _ => ?_⟩
        rw [added.2 free]
        rfl
    · refine ⟨fun addable => absurd (addable.1 _ mem_cons_self) plain, fun _ => ?_⟩
      rw [addSegments_special (by tauto)]
      rfl

/-- Relative, normalised paths that are not empty. -/
def Named (artifacts : List (Str × Artifact)) : Prop :=
  ∀ artifact ∈ artifacts, artifact.1 ≠ [] ∧ Path.isAbsolute artifact.1 = false ∧
    Path.lexicallyNormal artifact.1 = artifact.1

/-- The artifacts by the segments of their paths. -/
def segments (artifacts : List (Str × Artifact)) : List (List Str × Artifact) :=
  artifacts.map fun artifact => (Path.elements artifact.1, artifact.2)

theorem fromNamedArtifacts_eq (named : Named artifacts) : fromNamedArtifacts artifacts =
      (segments artifacts).foldlM (fun tree artifact => addSegments artifact.2 artifact.1 tree) .nil := by
  rw [segments, List.foldlM_map]
  refine Loops.foldlM_congr (fun tree artifact inside => ?_) _
  obtain ⟨some', relative, normal⟩ := named artifact inside
  change DirectoryTree.addArtifact artifact.1 artifact.2 tree = _
  simp only [DirectoryTree.addArtifact, normal]
  rw [if_neg (by simp [some', relative])]

/-! ## Tree objects -/

section Objects

variable {Hash : Type}

variable {entries : List (Hash × Str × Tree.ObjectType)}

/-- A tree object lists some entries once each, in the order of git. -/
structure Lists (content : GitTree Hash) (entries : List (GitEntry Hash)) : Prop where
  once : content.Perm entries
  sorted : content.Pairwise fun left right =>
    sortName left.name left.type < sortName right.name right.type

theorem emplaceAll_perm {Value : Type} {items : List (Str × Value)}
    (distinct : (items.map fst).Nodup) : (SortedMap.emplaceAll items []).Perm items := by
  have ordered : SortedMap.Ascending (SortedMap.emplaceAll items []) :=
    SortedMap.emplaceAll_ascending _ .nil
  refine (List.perm_ext_iff_of_nodup (ordered.imp fun below => ?_) distinct.of_map).mpr
    fun ⟨key, value⟩ => ?_
  · rintro rfl
    exact lt_irrefl _ below
  · rw [SortedMap.mem_iff_find ordered, SortedMap.find_emplaceAll, SortedMap.find_nil, none_or]
    constructor
    · exact SortedMap.mem_of_find
    · intro member
      refine SortedMap.find_of_unique member fun other inside => ?_
      have same := List.inj_on_of_nodup_map distinct inside member rfl
      exact (Prod.mk.inj same).2

variable [DecidableEq Hash]

theorem lists_createTree (distinct : (entries.map fun entry => entry.2.1).Nodup)
    (plain : ∀ entry ∈ entries, 0x2f ∉ entry.2.1) : Lists (createTree (Grouping.group entries))
      (entries.map fun entry => ⟨entry.2.1, entry.2.2, entry.1⟩) := by
  have slash : lit "/" = [0x2f] := by decide
  -- what is stored are the entries with their sort names
  let keyed := fun entry : Hash × Str × Tree.ObjectType =>
    (sortName entry.2.1 entry.2.2, entry.1, entry.2.2)
  let items := (Grouping.group entries).flatMap fun group =>
    group.2.map fun item => (sortName item.1 item.2, group.1, item.2)
  have same : items.Perm (entries.map keyed) := by
    have grouped := (Grouping.group_perm entries).map keyed
    simp only [List.map_flatMap, map_map] at grouped
    exact grouped
  have different : (items.map fst).Nodup := by
    rw [(same.map fst).nodup_iff, map_map]
    refine List.Nodup.map_on (fun left inLeft right inRight equal => ?_) distinct.of_map
    have names := TreeOverlay.sortName_injective (plain _ inLeft) (plain _ inRight) equal
    exact List.inj_on_of_nodup_map distinct inLeft inRight names
  have stored := (emplaceAll_perm different).trans same
  have ordered : SortedMap.Ascending (SortedMap.emplaceAll items []) :=
    SortedMap.emplaceAll_ascending _ .nil
  -- the slash of a tree is removed again
  let strip := fun item : Str × Hash × Tree.ObjectType =>
    ({ name := if item.2.2 = .tree then item.1.dropLast else item.1, type := item.2.2,
       hash := item.2.1 } : GitEntry Hash)
  have stripped : ∀ entry : Hash × Str × Tree.ObjectType,
      strip (keyed entry) = ⟨entry.2.1, entry.2.2, entry.1⟩ := by
    rintro ⟨hash, name, type⟩
    simp only [strip, keyed, sortName, slash]
    split
    · rw [List.dropLast_concat]
    · rfl
  have written : createTree (Grouping.group entries) =
      (SortedMap.emplaceAll items []).map strip := by
    unfold createTree
    rw [SortedMap.foldl_emplaceAll]
  rw [written]
  constructor
  · have final := stored.map strip
    rw [map_map, show strip ∘ keyed = fun entry => ⟨entry.2.1, entry.2.2, entry.1⟩ from
      funext stripped] at final
    exact final
  · refine pairwise_map.mpr (List.Pairwise.imp_of_mem ?_ ordered)
    intro left right leftIn rightIn below
    obtain ⟨leftEntry, -, rfl⟩ := mem_map.mp (stored.mem_iff.mp leftIn)
    obtain ⟨rightEntry, -, rfl⟩ := mem_map.mp (stored.mem_iff.mp rightIn)
    rw [stripped, stripped]
    exact below

omit [DecidableEq Hash] in
theorem names_nodup (proper : Proper tree) : (names tree).Nodup := by
  induction tree with
  | nil => exact .nil
  | directory name sub rest _ step => exact nodup_cons.mpr ⟨proper.1, step proper.2.2.2⟩
  | artifact name value rest step => exact nodup_cons.mpr ⟨proper.1, step proper.2⟩

theorem leaf_of_mem_names (proper : Proper tree) (member : name ∈ names tree) :
    ∃ leaf ∈ leaves tree, name ∈ leaf.1 := by
  induction tree with
  | nil => exact absurd member not_mem_nil
  | directory other sub rest _ step =>
    cases mem_cons.mp member with
    | inl same =>
      subst same
      obtain ⟨leaf, inside⟩ := List.exists_mem_of_ne_nil _ (leaves_ne_nil proper.2.2.1 proper.2.1)
      exact ⟨_, mem_append_left _ (mem_map.mpr ⟨leaf, inside, rfl⟩), mem_cons_self⟩
    | inr further =>
      obtain ⟨leaf, inside, found⟩ := step proper.2.2.2 further
      exact ⟨leaf, mem_append_right _ inside, found⟩
  | artifact other value rest step =>
    cases mem_cons.mp member with
    | inl same => exact ⟨_, mem_cons_self, same ▸ mem_cons_self⟩
    | inr further =>
      obtain ⟨leaf, inside, found⟩ := step proper.2 further
      exact ⟨leaf, mem_cons_of_mem _ inside, found⟩

theorem lists_names (proper : Proper tree)
    (plain : ∀ leaf ∈ leaves tree, ∀ name ∈ leaf.1, 0x2f ∉ name)
    (named : entries.map (fun entry => entry.2.1) = names tree) :
    Lists (createTree (Grouping.group entries))
      (entries.map fun entry => ⟨entry.2.1, entry.2.2, entry.1⟩) := by
  refine lists_createTree (named ▸ names_nodup proper) fun entry inside => ?_
  have member : entry.2.1 ∈ names tree := named ▸ mem_map.mpr ⟨entry, inside, rfl⟩
  obtain ⟨leaf, found, part⟩ := leaf_of_mem_names proper member
  exact plain leaf found _ part

variable (treeId : GitTree Hash → Hash) (info : Artifact → Option (Tree.ObjectType × Hash))

/-- The entries of a directory, and the blobs of its subdirectories: an artifact is listed with what
is known of it, a directory as the tree object that lists its entries. -/
def Represents : DirectoryTree Artifact → List (GitEntry Hash) → BlobNodes Hash → Prop
  | .nil, entries, nodes => entries = [] ∧ nodes = .nil
  | .artifact name value rest, entries, nodes => ∃ type hash others, info value = some (type, hash) ∧
      entries = ⟨name, type, hash⟩ :: others ∧ Represents rest others nodes
  | .directory name sub rest, entries, nodes => ∃ blob below more inner others,
      nodes = .node blob below more ∧ entries = ⟨name, .tree, treeId blob.content⟩ :: others ∧
      blob.digest = ⟨treeId blob.content, true⟩ ∧ Lists blob.content inner ∧
      Represents sub inner below ∧ Represents rest others more

variable {treeId info}

theorem represents_collect {nodes : BlobNodes Hash} (proper : Proper tree)
    (plain : ∀ leaf ∈ leaves tree, ∀ name ∈ leaf.1, 0x2f ∉ name)
    (collected : BlobTree.collect treeId info tree = some (entries, nodes)) :
    entries.map (fun entry => entry.2.1) = names tree ∧
      Represents treeId info tree (entries.map fun entry => ⟨entry.2.1, entry.2.2, entry.1⟩) nodes := by
  induction tree generalizing entries nodes with
  | nil =>
    cases collected
    exact ⟨rfl, rfl, rfl⟩
  | artifact name value rest step =>
    rw [BlobTree.collect] at collected
    obtain ⟨⟨type, hash⟩, known, collected⟩ := bind_eq_some_iff.mp collected
    obtain ⟨⟨others, more⟩, behind, same⟩ := bind_eq_some_iff.mp collected
    cases some.inj same
    obtain ⟨named, represented⟩ := step proper.2
      (forall_mem_cons.mp plain).2 behind
    exact ⟨congrArg (name :: ·) named, type, hash, _, known, rfl, represented⟩
  | directory name sub rest down step =>
    rw [BlobTree.collect] at collected
    obtain ⟨⟨inner, below⟩, inside, collected⟩ := bind_eq_some_iff.mp collected
    obtain ⟨⟨others, more⟩, behind, same⟩ := bind_eq_some_iff.mp collected
    cases some.inj same
    obtain ⟨fresh, some', properSub, properRest⟩ := proper
    obtain ⟨named, represented⟩ := step properRest
      (fun leaf member => plain leaf (mem_append_right _ member)) behind
    have plainSub : ∀ leaf ∈ leaves sub, ∀ name ∈ leaf.1, 0x2f ∉ name := fun leaf member other found =>
      plain (name :: leaf.1, leaf.2) (mem_append_left _ (mem_map.mpr ⟨leaf, member, rfl⟩))
        other (mem_cons_of_mem _ found)
    obtain ⟨namedSub, representedSub⟩ := down properSub plainSub inside
    refine ⟨congrArg (name :: ·) named, _, below, more, _, _, rfl, rfl, rfl, ?_, representedSub,
      represented⟩
    exact lists_names properSub plainSub namedSub

end Objects

/-! ## Named artifacts -/

theorem filename_eq_nil_iff {path : Str} (some' : path ≠ []) (relative : Path.isAbsolute path = false) :
    Path.filename path = [] ↔ [] ∈ Path.elements path := by
  have noEmpty : ([] : Str) ∉ Path.names path := by simp [Path.names]
  have nonempty := Path.elements_ne_nil some' relative
  unfold Path.elements at nonempty ⊢
  simp only [relative, false_eq_true, if_false, nil_append] at nonempty ⊢
  by_cases last : Path.filename path = []
  · by_cases none' : Path.names path = []
    · simp [none'] at nonempty
    · simp [last, none']
  · simp [last, noEmpty]

theorem filename_eq_getLast {path : Str} (some' : Path.filename path ≠ []) :
    (Path.names path).getLast? = some (Path.filename path) := by
  unfold Path.filename at some'
  cases last : (Path.pieces path).getLast? with
  | none => simp [List.getLastD_eq_getLast?, last] at some'
  | some name =>
    rw [List.getLastD_eq_getLast?, last, getD_some] at some'
    obtain ⟨front, split⟩ := List.getLast?_eq_some_iff.mp last
    have visible : [name].filter (fun piece => !piece.isEmpty) = [name] := by simpa using some'
    rw [Path.names, Path.filename, split, filter_append, visible]
    simp [List.getLastD_eq_getLast?]

theorem path_ext {left right : Str} (someLeft : left ≠ []) (someRight : right ≠ [])
    (relativeLeft : Path.isAbsolute left = false) (relativeRight : Path.isAbsolute right = false)
    (normalLeft : Path.lexicallyNormal left = left) (normalRight : Path.lexicallyNormal right = right)
    (same : Path.elements left = Path.elements right) : left = right := by
  have names : Path.names left = Path.names right := by
    have visible : ∀ path : Str, Path.isAbsolute path = false →
        (Path.elements path).filter (fun name => !name.isEmpty) = Path.names path := by
      intro path relative
      have kept : (Path.names path).filter (fun name => !name.isEmpty) = Path.names path :=
        List.filter_eq_self.mpr (by simp [Path.names])
      unfold Path.elements
      rw [relative, if_neg false_ne_true, nil_append, filter_append, kept]
      split <;> simp
    rw [← visible left relativeLeft, ← visible right relativeRight, same]
  have file : Path.filename left = Path.filename right := by
    by_cases last : Path.filename left = []
    · rw [last, (filename_eq_nil_iff someRight relativeRight).mpr
        (same ▸ (filename_eq_nil_iff someLeft relativeLeft).mp last)]
    · have last' : Path.filename right ≠ [] := fun none' => last
        ((filename_eq_nil_iff someLeft relativeLeft).mpr
          (same ▸ (filename_eq_nil_iff someRight relativeRight).mp none'))
      have found := filename_eq_getLast last
      rw [names, filename_eq_getLast last'] at found
      exact (some.inj found).symm
  rw [← normalLeft, ← normalRight]
  unfold Path.lexicallyNormal
  simp only [List.isEmpty_iff, someLeft, someRight, if_false, relativeLeft, relativeRight, names, file]

/-- The paths of artifacts that make up a tree: none occurs twice, none is a front of another one,
and none has special segments. -/
structure Fitting (artifacts : List (Str × Artifact)) : Prop where
  once : (artifacts.map fst).Nodup
  apart : ∀ left ∈ artifacts, ∀ right ∈ artifacts,
    Path.elements left.1 <+: Path.elements right.1 → Path.elements left.1 = Path.elements right.1
  plain : ∀ artifact ∈ artifacts,
    Path.here ∉ Path.elements artifact.1 ∧ Path.up ∉ Path.elements artifact.1

theorem addable_iff (named : Named artifacts) :
    Addable (segments artifacts) .nil ↔ Fitting artifacts := by
  have free : ∀ path : List Str, Free path (.nil : DirectoryTree Artifact) :=
    fun _ _ absurd' => nomatch absurd'
  unfold Addable segments
  rw [pairwise_map]
  simp only [forall_mem_map, free, implies_true, and_true]
  constructor
  · rintro ⟨plain, pairs⟩
    refine ⟨pairwise_map.mpr (pairs.imp fun apart same => ?_), fun left inLeft right inRight => ?_,
      plain⟩
    · rw [same] at apart
      exact apart.1 (List.prefix_refl _)
    · exact List.Pairwise.forall_of_forall_of_flip (R := fun left right : Str × Artifact =>
          Path.elements left.1 <+: Path.elements right.1 →
            Path.elements left.1 = Path.elements right.1)
        (fun _ _ _ => rfl) (pairs.imp fun apart front => absurd front apart.1)
        (pairs.imp fun apart front => absurd front apart.2) inLeft inRight
  · intro fitting
    refine ⟨fitting.plain, (pairwise_map.mp fitting.once).imp_of_mem
      fun {left right} inLeft inRight differ => ?_⟩
    obtain ⟨someLeft, relativeLeft, normalLeft⟩ := named left inLeft
    obtain ⟨someRight, relativeRight, normalRight⟩ := named right inRight
    have different : Path.elements left.1 ≠ Path.elements right.1 := fun same => differ
      (path_ext someLeft someRight relativeLeft relativeRight normalLeft normalRight same)
    exact ⟨fun front => different (fitting.apart _ inLeft _ inRight front),
      fun front => different (fitting.apart _ inRight _ inLeft front).symm⟩

theorem plain_elements {path : Str} (relative : Path.isAbsolute path = false) :
    ∀ name ∈ Path.elements path, 0x2f ∉ name := by
  intro name inside
  unfold Path.elements at inside
  rw [relative, if_neg false_ne_true, nil_append, mem_append] at inside
  cases inside with
  | inl found => exact Path.slash_notMem_pieces path name (mem_filter.mp found).1
  | inr found =>
    split at found
    · rw [mem_singleton.mp found]
      exact not_mem_nil
    · exact absurd found not_mem_nil

theorem Fitting.perm {other : List (Str × Artifact)} (same : other.Perm artifacts)
    (fitting : Fitting artifacts) : Fitting other where
  once := (same.map fst).nodup_iff.mpr fitting.once
  apart := fun left inLeft right inRight =>
    fitting.apart left (same.mem_iff.mp inLeft) right (same.mem_iff.mp inRight)
  plain := fun artifact inside => fitting.plain artifact (same.mem_iff.mp inside)

theorem fromNamedArtifacts_spec (named : Named artifacts) :
    (Fitting artifacts → ∃ tree, fromNamedArtifacts artifacts = some tree ∧ Proper tree ∧
      (leaves tree).Perm (segments artifacts)) ∧
    (¬ Fitting artifacts → fromNamedArtifacts artifacts = none) := by
  have nonempty : ∀ artifact ∈ segments artifacts, artifact.1 ≠ [] := by
    intro artifact inside
    obtain ⟨found, member, rfl⟩ := mem_map.mp inside
    exact Path.elements_ne_nil (named found member).1 (named found member).2.1
  have added := @foldlM_addSegments Artifact .nil _ nonempty trivial
  rw [addable_iff named, ← fromNamedArtifacts_eq named] at added
  refine ⟨fun fitting => ?_, added.2⟩
  obtain ⟨tree, success, proper, same⟩ := added.1 fitting
  rw [leaves, append_nil] at same
  exact ⟨tree, success, proper, same⟩

/-- The tree of named artifacts exists exactly if the paths are fitting. Then its leaves are the
artifacts, in whichever order they are added, and in whichever order its nodes are enumerated, the
tree objects list the entries of every directory once, in the order of git. -/
theorem fromNamedArtifacts_iff {Hash : Type} [DecidableEq Hash] (treeId : GitTree Hash → Hash)
    (info : Artifact → Option (Tree.ObjectType × Hash)) (artifacts : List (Str × Artifact))
    (named : Named artifacts) :
    ((fromNamedArtifacts artifacts).isSome ↔ Fitting artifacts) ∧
    ∀ tree, fromNamedArtifacts artifacts = some tree →
      (leaves tree).Perm (segments artifacts) ∧
      (∀ other, other.Perm artifacts → ∃ again, fromNamedArtifacts other = some again ∧
        (leaves again).Perm (leaves tree)) ∧
      ∀ again, Proper again → (leaves again).Perm (leaves tree) → ∀ blobTree,
        BlobTree.fromDirectoryTree treeId info again = some blobTree → ∃ entries,
          Represents treeId info again entries blobTree.nodes ∧
          Lists blobTree.blob.content entries := by
  have spec := fromNamedArtifacts_spec named
  constructor
  · constructor
    · intro success
      by_contra unfit
      rw [spec.2 unfit] at success
      cases success
    · intro fitting
      obtain ⟨tree, success, -⟩ := spec.1 fitting
      exact isSome_iff_exists.mpr ⟨tree, success⟩
  · intro tree success
    have fitting : Fitting artifacts := by
      by_contra unfit
      rw [spec.2 unfit] at success
      cases success
    obtain ⟨found, success', proper, same⟩ := spec.1 fitting
    cases success.symm.trans success'
    refine ⟨same, fun other reordered => ?_, fun again properAgain alike blobTree written => ?_⟩
    · have namedOther : Named other := fun artifact inside =>
        named artifact (reordered.mem_iff.mp inside)
      obtain ⟨again, success, -, sameAgain⟩ :=
        (fromNamedArtifacts_spec namedOther).1 (fitting.perm reordered)
      exact ⟨again, success, sameAgain.trans ((reordered.map _).trans same.symm)⟩
    · have plain : ∀ leaf ∈ leaves again, ∀ name ∈ leaf.1, 0x2f ∉ name := by
        intro leaf inside
        obtain ⟨artifact, member, rfl⟩ := mem_map.mp (same.mem_iff.mp (alike.mem_iff.mp inside))
        exact plain_elements (named artifact member).2.1
      obtain ⟨⟨entries, nodes⟩, collected, rfl⟩ := map_eq_some_iff.mp written
      obtain ⟨sameNames, represented⟩ := represents_collect properAgain plain collected
      exact ⟨_, represented, lists_names properAgain plain sameNames⟩

/-- The files `a/b` and `c`. -/
def twoFiles : List (Str × Nat) := [(lit "a/b", 1), (lit "c", 2)]

theorem twoFiles_tree : ((fromNamedArtifacts twoFiles).isSome ↔ Fitting twoFiles) ∧
    (fromNamedArtifacts twoFiles).isSome = true :=
  ⟨(fromNamedArtifacts_iff (fun content => content.length) (fun value => some (.file, value))
    twoFiles (by unfold Named; decide)).1, by decide⟩

end Jst.Verif.DirectoryTrees
