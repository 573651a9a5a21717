import Jst.Tree.Paths
/-!
# Reading and writing tree objects

The parser groups the entries of a tree object by hash and gives all of one group the type of the
first; the writer groups them, sorts them and drops the groups again. What is found under a name
after reading and after writing is stated here once, so that the overlay need not look inside.
-/
namespace Jst.Verif.TreeOverlay

open Jst.SortedMap Jst.Tree

variable {Hash : Type} [DecidableEq Hash]

section Reading

omit [DecidableEq Hash] in
theorem entryIn_eq_some {data : GitTree Hash} (distinct : (data.map GitEntry.name).Nodup)
    {name : Str} {found : Tree.ObjectType × Hash} : entryIn data name = some found ↔
      ∃ item ∈ data, item.name = name ∧ (item.type, item.hash) = found := by
  unfold entryIn
  rw [map_eq_some_iff]
  constructor
  · rintro ⟨item, present, same⟩
    exact ⟨item, List.mem_of_find?_eq_some present, by simpa using List.find?_some present, same⟩
  · rintro ⟨item, member, named, same⟩
    refine ⟨item, ?_, same⟩
    cases present : data.find? fun other => other.name = name with
    | none => exact absurd named (by simpa using List.find?_eq_none.mp present item member)
    | some other =>
      have equal := List.inj_on_of_nodup_map distinct (List.mem_of_find?_eq_some present) member
        (by rw [named]; simpa using List.find?_some present)
      rw [equal]

/-- What one group of a tree object contributes to the entries. -/
def groupInfos (group : Hash × List (Str × Tree.ObjectType)) : TreeEntries Hash :=
  match group.2 with
  | [] => []
  | first :: _ => group.2.map fun item => (item.1, entryInfo (first.2, group.1))

theorem parseGitTree_eq (data : GitTree Hash) :
    parseGitTree data = emplaceAll ((readDirectTree data).flatMap groupInfos) [] := by
  rw [← foldl_emplaceAll]
  unfold parseGitTree
  congr 1
  funext entries group
  obtain ⟨hash, items⟩ := group
  cases items <;> rfl

theorem mem_groupInfos (data : GitTree Hash) (name : Str) (info : ObjectInfo Hash) :
    (name, info) ∈ (readDirectTree data).flatMap groupInfos ↔ ∃ item ∈ data, item.name = name ∧
        ∃ type, firstType data item.hash = some type ∧ info = entryInfo (type, item.hash) := by
  have selected : ∀ hash, Grouping.select hash
      (data.map fun entry => (entry.hash, entry.name, entry.type)) =
      (data.filter fun entry => entry.hash = hash).map fun entry => (entry.name, entry.type) := by
    intro hash
    simp [Grouping.select, List.filter_map, comp_def]
  have first : ∀ hash, firstType data hash =
      ((data.filter fun entry => entry.hash = hash).map fun entry =>
        (entry.name, entry.type)).head?.map snd := by
    intro hash
    simp [firstType, List.head?_map, List.head?_filter, comp_def]
  rw [List.mem_flatMap]
  constructor
  · rintro ⟨⟨hash, items⟩, member, inside⟩
    obtain ⟨rfl, -⟩ := (Grouping.mem_group _ _ _).mp member
    rw [selected] at inside
    unfold groupInfos at inside
    have head := first hash
    split at inside
    · simp at inside
    · next front rest shape =>
      dsimp only at shape
      rw [shape] at head
      simp only [mem_map, mem_filter, decide_eq_true_eq, Prod.mk.injEq] at inside
      obtain ⟨_, ⟨item, ⟨present, rfl⟩, rfl⟩, named, rfl⟩ := inside
      exact ⟨item, present, named, front.2, head, rfl⟩
  · rintro ⟨item, present, rfl, type, found, rfl⟩
    have chosen : (item.name, item.type) ∈
        (data.filter fun entry => entry.hash = item.hash).map fun entry =>
          (entry.name, entry.type) := by
      simp only [mem_map, mem_filter, decide_eq_true_eq]
      exact ⟨item, ⟨present, rfl⟩, rfl⟩
    refine ⟨(item.hash, _), (Grouping.mem_group _ _ _).mpr ⟨rfl, ?_⟩, ?_⟩
    · rw [selected]
      exact List.ne_nil_of_mem chosen
    · rw [selected]
      rw [first] at found
      unfold groupInfos
      split
      · next shape =>
        dsimp only at shape
        rw [shape] at chosen
        simp at chosen
      · next front rest shape =>
        dsimp only at shape
        rw [shape] at found
        simp only [List.head?_cons, map_some, some.injEq] at found
        exact mem_map.mpr ⟨_, chosen, by rw [found]⟩

theorem find_parseGitTree {data : GitTree Hash} (distinct : (data.map GitEntry.name).Nodup)
    (name : Str) : find name (parseGitTree data) = (misreadIn data name).map entryInfo := by
  rw [parseGitTree_eq, find_emplaceAll, find_nil, none_or]
  cases read : misreadIn data name with
  | none =>
    refine find_eq_none.mpr fun found member => ?_
    obtain ⟨other, info⟩ := found
    rintro rfl
    obtain ⟨item, present, named, type, first, -⟩ := (mem_groupInfos _ _ _).mp member
    have here : entryIn data other = some (item.type, item.hash) :=
      (entryIn_eq_some distinct).mpr ⟨item, present, named, rfl⟩
    simp [misreadIn, here, first] at read
  | some found =>
    simp only [misreadIn, bind_eq_some_iff, map_eq_some_iff] at read
    obtain ⟨_, here, type, first, rfl⟩ := read
    obtain ⟨item, present, named, rfl⟩ := (entryIn_eq_some distinct).mp here
    refine find_of_unique ((mem_groupInfos _ _ _).mpr
      ⟨item, present, named, type, first, rfl⟩) fun other member => ?_
    obtain ⟨item', present', named', type', first', rfl⟩ := (mem_groupInfos _ _ _).mp member
    have same := List.inj_on_of_nodup_map distinct present' present (named'.trans named.symm)
    subst same
    rw [first'] at first
    rw [some.inj first]

theorem parseGitTree_ascending (data : GitTree Hash) : Ascending (parseGitTree data) := by
  rw [parseGitTree_eq]
  exact emplaceAll_ascending _ List.Pairwise.nil

end Reading

section Writing

theorem sortName_injective {left right : Str} {leftType rightType : Tree.ObjectType}
    (leftPlain : 0x2f ∉ left) (rightPlain : 0x2f ∉ right)
    (same : sortName left leftType = sortName right rightType) : left = right := by
  have slash : lit "/" = [0x2f] := by decide
  unfold sortName at same
  rw [slash] at same
  split at same <;> split at same
  · exact List.append_cancel_right same
  · exact absurd (same ▸ mem_append_right left mem_cons_self) rightPlain
  · exact absurd (same ▸ mem_append_right right mem_cons_self) leftPlain
  · exact same

/-- The sorted entries that a tree object is written from. -/
def sortedEntries (treeEntries : TreeEntries Hash) : List (Str × Hash × Tree.ObjectType) :=
  emplaceAll
    ((Grouping.group (treeEntries.map fun (name, info) =>
        (info.digest.hash, name, info.type))).flatMap fun (hash, items) =>
      items.map fun item => (sortName item.1 item.2, hash, item.2)) []

theorem serializeGitTree_eq (treeEntries : TreeEntries Hash) :
    serializeGitTree treeEntries = (sortedEntries treeEntries).map fun (name, hash, type) =>
      { name := if type = .tree then name.dropLast else name, type := type, hash := hash } := by
  rw [sortedEntries, ← foldl_emplaceAll]
  rfl

theorem mem_groupedEntries (treeEntries : TreeEntries Hash) (sorted : Str) (hash : Hash)
    (type : Tree.ObjectType) :
    (sorted, hash, type) ∈ ((Grouping.group (treeEntries.map fun (name, info) =>
        (info.digest.hash, name, info.type))).flatMap fun (hash, items) =>
      items.map fun item => (sortName item.1 item.2, hash, item.2)) ↔
      ∃ name info, (name, info) ∈ treeEntries ∧ sorted = sortName name type ∧
        info.type = type ∧ info.digest.hash = hash := by
  rw [List.mem_flatMap]
  constructor
  · rintro ⟨⟨key, items⟩, member, inside⟩
    obtain ⟨rfl, -⟩ := (Grouping.mem_group _ _ _).mp member
    simp only [Grouping.select, mem_map, mem_filter, decide_eq_true_eq, Prod.mk.injEq] at inside
    obtain ⟨_, ⟨_, ⟨⟨⟨name, info⟩, present, rfl⟩, rfl⟩, rfl⟩, rfl, rfl, rfl⟩ := inside
    exact ⟨name, info, present, rfl, rfl, rfl⟩
  · rintro ⟨name, info, present, rfl, rfl, rfl⟩
    have chosen : (name, info.type) ∈ Grouping.select info.digest.hash
        (treeEntries.map fun (name, info) => (info.digest.hash, name, info.type)) := by
      simp only [Grouping.select, mem_map, mem_filter, decide_eq_true_eq]
      exact ⟨_, ⟨⟨_, present, rfl⟩, rfl⟩, rfl⟩
    exact ⟨(info.digest.hash, _),
      (Grouping.mem_group _ _ _).mpr ⟨rfl, List.ne_nil_of_mem chosen⟩,
      mem_map.mpr ⟨_, chosen, rfl⟩⟩

variable {treeEntries : TreeEntries Hash}

section

variable (ordered : Ascending treeEntries) (plain : ∀ item ∈ treeEntries, 0x2f ∉ item.1)
include ordered plain

theorem mem_sortedEntries (sorted : Str) (hash : Hash) (type : Tree.ObjectType) :
    (sorted, hash, type) ∈ sortedEntries treeEntries ↔
      ∃ name info, (name, info) ∈ treeEntries ∧ sorted = sortName name type ∧
        info.type = type ∧ info.digest.hash = hash := by
  have stored : Ascending (sortedEntries treeEntries) := emplaceAll_ascending _ List.Pairwise.nil
  rw [mem_iff_find stored, sortedEntries, find_emplaceAll, find_nil, none_or]
  constructor
  · intro found
    exact (mem_groupedEntries _ _ _ _).mp (mem_of_find found)
  · rintro ⟨name, info, present, rfl, rfl, rfl⟩
    refine find_of_unique ((mem_groupedEntries _ _ _ _).mpr
      ⟨name, info, present, rfl, rfl, rfl⟩) fun other member => ?_
    obtain ⟨name', info', present', same, type, hash⟩ := (mem_groupedEntries _ _ _ _).mp member
    have names := sortName_injective (plain _ present) (plain _ present') same
    subst names
    rw [mem_iff_find ordered] at present present'
    rw [present] at present'
    cases some.inj present'
    exact Prod.ext hash.symm type.symm

theorem mem_serializeGitTree (item : GitEntry Hash) : item ∈ serializeGitTree treeEntries ↔
      ∃ info, (item.name, info) ∈ treeEntries ∧ info.type = item.type ∧
        info.digest.hash = item.hash := by
  have stripped : ∀ (name : Str) (type : Tree.ObjectType),
      (if type = .tree then (sortName name type).dropLast else sortName name type) = name := by
    intro name type
    unfold sortName
    split
    · have slash : lit "/" = [0x2f] := by decide
      rw [slash, List.dropLast_concat]
    · rfl
  rw [serializeGitTree_eq, mem_map]
  constructor
  · rintro ⟨⟨sorted, hash, type⟩, member, rfl⟩
    obtain ⟨name, info, present, rfl, rfl, rfl⟩ := (mem_sortedEntries ordered plain _ _ _).mp member
    refine ⟨info, ?_, rfl, rfl⟩
    simp only [stripped]
    exact present
  · rintro ⟨info, present, type, hash⟩
    refine ⟨(sortName item.name item.type, item.hash, item.type),
      (mem_sortedEntries ordered plain _ _ _).mpr ⟨_, info, present, rfl, type, hash⟩, ?_⟩
    simp only [stripped]

theorem distinct_serializeGitTree : ((serializeGitTree treeEntries).map GitEntry.name).Nodup := by
  have stored : Ascending (sortedEntries treeEntries) := emplaceAll_ascending _ List.Pairwise.nil
  rw [serializeGitTree_eq, map_map]
  refine pairwise_map.mpr (List.Pairwise.imp_of_mem ?_ stored)
  rintro ⟨left, leftHash, leftType⟩ ⟨right, rightHash, rightType⟩ leftIn rightIn below
  obtain ⟨name, info, present, rfl, rfl, rfl⟩ := (mem_sortedEntries ordered plain _ _ _).mp leftIn
  obtain ⟨name', info', present', rfl, rfl, rfl⟩ :=
    (mem_sortedEntries ordered plain _ _ _).mp rightIn
  intro same
  have names : name = name' := by
    have slash : lit "/" = [0x2f] := by decide
    simp only [comp_apply, sortName, slash] at same
    split at same <;> split at same <;> simpa using same
  subst names
  rw [mem_iff_find ordered] at present present'
  rw [present] at present'
  cases some.inj present'
  exact lt_irrefl _ below

theorem entryIn_serializeGitTree (name : Str) : entryIn (serializeGitTree treeEntries) name =
      (find name treeEntries).map fun info => (info.type, info.digest.hash) := by
  have distinct := distinct_serializeGitTree ordered plain
  cases found : find name treeEntries with
  | some info =>
    refine (entryIn_eq_some distinct).mpr ⟨⟨name, info.type, info.digest.hash⟩, ?_, rfl, rfl⟩
    exact (mem_serializeGitTree ordered plain _).mpr ⟨info, mem_of_find found, rfl, rfl⟩
  | none =>
    cases written : entryIn (serializeGitTree treeEntries) name with
    | none => rfl
    | some other =>
      obtain ⟨item, member, rfl, -⟩ := (entryIn_eq_some distinct).mp written
      obtain ⟨info, present, -⟩ := (mem_serializeGitTree ordered plain _).mp member
      rw [mem_iff_find ordered, found] at present
      simp at present

end

theorem sorted_serializeGitTree {treeEntries : TreeEntries Hash} (ordered : Ascending treeEntries)
    (plain : ∀ item ∈ treeEntries, 0x2f ∉ item.1) :
    (serializeGitTree treeEntries).Pairwise fun left right =>
      sortName left.name left.type < sortName right.name right.type := by
  have stored : Ascending (sortedEntries treeEntries) := emplaceAll_ascending _ List.Pairwise.nil
  rw [serializeGitTree_eq]
  refine pairwise_map.mpr (List.Pairwise.imp_of_mem ?_ stored)
  rintro ⟨left, leftHash, leftType⟩ ⟨right, rightHash, rightType⟩ leftIn rightIn below
  obtain ⟨name, info, -, rfl, -⟩ := (mem_sortedEntries ordered plain _ _ _).mp leftIn
  obtain ⟨name', info', -, rfl, -⟩ := (mem_sortedEntries ordered plain _ _ _).mp rightIn
  have slash : lit "/" = [0x2f] := by decide
  have stripped : ∀ (name : Str) (type : Tree.ObjectType), sortName (if type = .tree then
      (sortName name type).dropLast else sortName name type) type = sortName name type := by
    intro name type
    by_cases isTree : type = .tree <;> simp [sortName, slash, isTree]
  rw [stripped, stripped]
  exact below

omit [DecidableEq Hash] in
theorem createTree_written (groups : GroupedEntries Hash) :
    createTree groups = (emplaceAll (groups.flatMap fun (hash, items) =>
      items.map fun item => (sortName item.1 item.2, hash, item.2)) []).map
        fun (name, hash, type) =>
          { name := if type = .tree then name.dropLast else name, type := type, hash := hash } := by
  rw [← foldl_emplaceAll]
  rfl

omit [DecidableEq Hash] in
theorem createTree_eq {data : GitTree Hash} (wellFormed : WellFormed data)
    {groups : GroupedEntries Hash}
    (perm : (groups.flatMap fun group => group.2.map fun entry => (group.1, entry)).Perm
      (data.map fun entry => (entry.hash, entry.name, entry.type))) : createTree groups = data := by
  have ordered : Ascending
      (data.map fun entry => (sortName entry.name entry.type, entry.hash, entry.type)) :=
    pairwise_map.mpr wellFormed.sorted
  have shape : (groups.flatMap fun (hash, items) =>
        items.map fun item => (sortName item.1 item.2, hash, item.2)) =
      (groups.flatMap fun group => group.2.map fun entry => (group.1, entry)).map
        fun entry => (sortName entry.2.1 entry.2.2, entry.1, entry.2.2) := by
    rw [List.map_flatMap]
    simp only [map_map, comp_def]
  have listed : (groups.flatMap fun (hash, items) =>
        items.map fun item => (sortName item.1 item.2, hash, item.2)).Perm
      (data.map fun entry => (sortName entry.name entry.type, entry.hash, entry.type)) := by
    rw [shape]
    have moved := perm.map fun entry : Hash × Str × Tree.ObjectType =>
      (sortName entry.2.1 entry.2.2, entry.1, entry.2.2)
    rwa [map_map] at moved
  have slash : lit "/" = [0x2f] := by decide
  rw [createTree_written, emplaceAll_perm ordered listed, map_map]
  refine (map_congr_left fun entry _ => ?_).trans (List.map_id data)
  obtain ⟨name, type, hash⟩ := entry
  by_cases isTree : type = .tree <;> simp [sortName, slash, isTree]

end Writing

end Jst.Verif.TreeOverlay
