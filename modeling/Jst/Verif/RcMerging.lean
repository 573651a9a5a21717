import Jst.JustMr.RcMerge
/-!
# Merging chains of rc files

What every field of a merge is follows from the fields of both sides. So merging is associative, and
what a chain is merged to does not depend on how the merges are nested.
-/
namespace Jst.Verif.RcMerging

open SortedMap Expression JustMr

theorem find_update (config : RcConfig) (map : Configuration) (key : Str) :
    find key (config.update map).items = (find key map).or (find key config.items) :=
  find_union key map config.items

theorem find_updates (value : Str → Value) (fields : List Str) (start : RcConfig) (key : Str) :
    find key (fields.foldl (fun result field => result.update [(field, value field)]) start).items =
      if key ∈ fields then some (value key) else find key start.items := by
  induction fields generalizing start with
  | nil => rfl
  | cons field rest step =>
    rw [foldl_cons, step]
    by_cases later : key ∈ rest
    · simp [later]
    · rw [if_neg later, find_update, find_cons, find_nil]
      by_cases same : field = key
      · subst same
        simp
      · simp [later, same, Ne.symm same]

/-- The map that a locally merging field gets. -/
def joined (base delta : RcConfig) (field : Str) : Configuration :=
  (Configuration.updateAll [] (base.map field)).updateAll (delta.map field)

theorem joined_ascending (base delta : RcConfig) (field : Str) :
    Ascending (joined base delta field) :=
  union_ascending _ (union_ascending _ .nil)

theorem find_joined (base delta : RcConfig) (field key : Str) : find key (joined base delta field) =
      (find key (delta.map field)).or (find key (base.map field)) := by
  simp [joined, Configuration.updateAll]

variable {field : Str}

theorem not_localMerge (accumulates : field ∈ accumulating) : field ∉ localMerge := by
  rw [mem_singleton.mp accumulates]
  decide

variable (base delta : RcConfig)

theorem find_local (merges : field ∈ localMerge) :
    find field (mergeMRRC base delta).items = some (.map (joined base delta field)) :=
  (find_updates (fun field => .map (joined base delta field)) _ _ _).trans (if_pos merges)

theorem find_accumulating (accumulates : field ∈ accumulating) :
    find field (mergeMRRC base delta).items =
      some (.list (delta.list field ++ base.list field)) := by
  have skipped := find_updates (fun field => .map (joined base delta field)) localMerge
    (accumulating.foldl (joinLists base delta) (base.update delta.items)) field
  have stored := find_updates (fun field => .list (delta.list field ++ base.list field))
    accumulating (base.update delta.items) field
  rw [if_neg (not_localMerge accumulates)] at skipped
  rw [if_pos accumulates] at stored
  exact skipped.trans stored

theorem find_other (replaced : field ∉ accumulating) (whole : field ∉ localMerge) :
    find field (mergeMRRC base delta).items =
      (find field delta.items).or (find field base.items) := by
  have skipped := find_updates (fun field => .map (joined base delta field)) localMerge
    (accumulating.foldl (joinLists base delta) (base.update delta.items)) field
  have kept := find_updates (fun field => .list (delta.list field ++ base.list field))
    accumulating (base.update delta.items) field
  rw [if_neg whole] at skipped
  rw [if_neg replaced, find_update] at kept
  exact skipped.trans kept

theorem list_merge (accumulates : field ∈ accumulating) :
    (mergeMRRC base delta).list field = delta.list field ++ base.list field := by
  rw [RcConfig.list, Configuration.get, find_accumulating base delta accumulates]
  rfl

theorem map_merge (merges : field ∈ localMerge) :
    (mergeMRRC base delta).map field = joined base delta field := by
  rw [RcConfig.map, Configuration.get, find_local base delta merges]
  rfl

theorem merge_assoc (first second third : RcConfig) :
    mergeMRRC (mergeMRRC first second) third = mergeMRRC first (mergeMRRC second third) := by
  refine RcConfig.ext (ext_find (RcConfig.ordered _) (RcConfig.ordered _) fun field => ?_)
  by_cases merges : field ∈ localMerge
  · have same : joined (mergeMRRC first second) third field =
        joined first (mergeMRRC second third) field := by
      refine ext_find (joined_ascending _ _ _) (joined_ascending _ _ _) fun key => ?_
      rw [find_joined, find_joined, map_merge _ _ merges, map_merge _ _ merges, find_joined,
        find_joined, Option.or_assoc]
    rw [find_local _ _ merges, find_local _ _ merges, same]
  · by_cases accumulates : field ∈ accumulating
    · rw [find_accumulating _ _ accumulates, find_accumulating _ _ accumulates,
        list_merge _ _ accumulates, list_merge _ _ accumulates, append_assoc]
    · rw [find_other _ _ accumulates merges, find_other _ _ accumulates merges,
        find_other _ _ accumulates merges, find_other _ _ accumulates merges, Option.or_assoc]

/-- A nesting of merges. -/
inductive Nesting where
  | file (config : RcConfig)
  | merge (base delta : Nesting)

namespace Nesting

/-- The files, in order. -/
def files : Nesting → List RcConfig
  | file config => [config]
  | merge base delta => base.files ++ delta.files

/-- What is merged. -/
def merged : Nesting → RcConfig
  | file config => config
  | merge base delta => mergeMRRC base.merged delta.merged

end Nesting

/-- What the fields of a chain of files contain, later files first. -/
structure Contains (chain : List RcConfig) (result : RcConfig) : Prop where
  lists : ∀ field ∈ accumulating,
    result.list field = chain.reverse.flatMap fun config => config.list field
  maps : ∀ field ∈ localMerge, ∀ key,
    find key (result.map field) = chain.reverse.findSome? fun config => find key (config.map field)
  values : ∀ field, field ∉ accumulating → field ∉ localMerge →
    find field result.items = chain.reverse.findSome? fun config => find field config.items

theorem contains_file (config : RcConfig) : Contains [config] config where
  lists field _ := by simp
  maps field _ key := by simp
  values field _ _ := by simp

theorem Contains.merge {front back : List RcConfig} {base delta : RcConfig}
    (first : Contains front base) (second : Contains back delta) :
    Contains (front ++ back) (mergeMRRC base delta) where
  lists field accumulates := by
    rw [list_merge _ _ accumulates, first.lists field accumulates, second.lists field accumulates,
      reverse_append, List.flatMap_append]
  maps field merges key := by
    rw [map_merge _ _ merges, find_joined, first.maps field merges, second.maps field merges,
      reverse_append, List.findSome?_append]
  values field replaced whole := by
    rw [find_other _ _ replaced whole, first.values field replaced whole,
      second.values field replaced whole, reverse_append, List.findSome?_append]

theorem contains_nesting (nesting : Nesting) : Contains nesting.files nesting.merged := by
  induction nesting with
  | file config => exact contains_file config
  | merge base delta first second => exact first.merge second

theorem Contains.of_empty {chain : List RcConfig} {result : RcConfig}
    (contains : Contains (.empty :: chain) result) : Contains chain result where
  lists field accumulates := by
    rw [contains.lists field accumulates, reverse_cons, List.flatMap_append]
    exact append_nil _
  maps field merges key := by
    rw [contains.maps field merges, reverse_cons, List.findSome?_append]
    exact Option.or_none
  values field replaced whole := by
    rw [contains.values field replaced whole, reverse_cons, List.findSome?_append]
    exact Option.or_none

/-- A configuration has a list for every accumulating field and a map for every locally merging
one. -/
structure Typed (result : RcConfig) : Prop where
  lists : ∀ field ∈ accumulating, find field result.items = some (.list (result.list field))
  maps : ∀ field ∈ localMerge, find field result.items = some (.map (result.map field)) ∧
    Ascending (result.map field)

theorem typed_merge : Typed (mergeMRRC base delta) where
  lists field accumulates := by
    rw [find_accumulating _ _ accumulates, list_merge _ _ accumulates]
  maps field merges := by
    rw [find_local _ _ merges, map_merge _ _ merges]
    exact ⟨rfl, joined_ascending _ _ _⟩

theorem typed_nesting {nesting : Nesting} (several : 1 < nesting.files.length) :
    Typed nesting.merged := by
  cases nesting with
  | file config => exact absurd several (Nat.lt_irrefl 1)
  | merge base delta => exact typed_merge _ _

/-- Merging is associative; every nesting of merges of a chain, starting from the empty
configuration, has the lists, the maps and the values of its files. -/
theorem rc_files_merged :
    (∀ first second third : RcConfig,
      mergeMRRC (mergeMRRC first second) third = mergeMRRC first (mergeMRRC second third)) ∧
    ∀ (base : RcConfig) (chain : List RcConfig) (nesting : Nesting),
      nesting.files = RcConfig.empty :: base :: chain →
        Typed nesting.merged ∧ Contains (base :: chain) nesting.merged := by
  refine ⟨merge_assoc, fun base chain nesting files => ⟨?_, ?_⟩⟩
  · refine typed_nesting ?_
    rw [files, length_cons, length_cons]
    omega
  · refine Contains.of_empty ?_
    rw [← files]
    exact contains_nesting nesting

/-- A file that sets the directories of archives. -/
def sample (directory : String) : RcConfig :=
  ⟨[(lit "distdirs", .list [.string (lit directory)])], by simp⟩

theorem rc_files_merged_nested :
    Contains [sample "first", sample "second"]
      (Nesting.merge (.file .empty)
        (.merge (.file (sample "first")) (.file (sample "second")))).merged :=
  (rc_files_merged.2 (sample "first") [sample "second"] _ rfl).2

end Jst.Verif.RcMerging
