import Mathlib.Data.List.Nodup
import Mathlib.Data.List.Induction
/-!
# Grouping by key

A list of keyed values is sharded into one group for each key; a group keeps its values in the
order of the list. The groups are exactly the nonempty selections of the list by key
(`mem_group`), each listed once (`group_nodup`).
-/
namespace Jst.Grouping

variable {K V : Type} [DecidableEq K]

/-- Append a value to the group of its key, which is opened at the end when it does not exist. -/
def add (key : K) (value : V) : List (K × List V) → List (K × List V)
  | [] => [(key, [value])]
  | (other, values) :: groups =>
    if other = key then (other, values ++ [value]) :: groups
    else (other, values) :: add key value groups

/-- The groups of a list of keyed values. -/
def group (list : List (K × V)) : List (K × List V) :=
  list.foldl (fun groups entry => add entry.1 entry.2 groups) []

/-- The values of one key, in order. -/
def select (key : K) (list : List (K × V)) : List V :=
  (list.filter fun entry => entry.1 = key).map Prod.snd

theorem mem_keys_add (key other : K) (value : V) (groups : List (K × List V)) :
    other ∈ (add key value groups).map Prod.fst ↔ other = key ∨ other ∈ groups.map Prod.fst := by
  induction groups with
  | nil => simp [add]
  | cons head groups step =>
    obtain ⟨name, values⟩ := head
    simp only [add]
    split
    · next same =>
      subst same
      simp
    · simp only [List.map_cons, List.mem_cons, step]
      tauto

variable {groups : List (K × List V)}

theorem nodup_add (key : K) (value : V)
    (distinct : (groups.map Prod.fst).Nodup) : ((add key value groups).map Prod.fst).Nodup := by
  induction groups with
  | nil => simp [add]
  | cons head groups step =>
    obtain ⟨name, values⟩ := head
    obtain ⟨fresh, rest⟩ := List.nodup_cons.mp distinct
    simp only [add]
    split
    · exact List.nodup_cons.mpr ⟨fresh, rest⟩
    · next differ =>
      refine List.nodup_cons.mpr ⟨?_, step rest⟩
      rw [mem_keys_add]
      rintro (same | inside)
      · exact differ same
      · exact fresh inside

theorem mem_add (key other : K) (value : V) (values : List V)
    (distinct : (groups.map Prod.fst).Nodup) : (other, values) ∈ add key value groups ↔
      other ≠ key ∧ (other, values) ∈ groups ∨ other = key ∧ ∃ before, values = before ++ [value] ∧
        ((key, before) ∈ groups ∨ before = [] ∧ key ∉ groups.map Prod.fst) := by
  induction groups with
  | nil =>
    simp only [add, List.mem_singleton, Prod.mk.injEq, List.not_mem_nil, and_false, false_or,
      List.map_nil, not_false_eq_true, and_true]
    constructor
    · rintro ⟨rfl, rfl⟩
      exact ⟨rfl, [], rfl, rfl⟩
    · rintro ⟨rfl, before, rfl, rfl⟩
      exact ⟨rfl, rfl⟩
  | cons head groups step =>
    obtain ⟨name, stored⟩ := head
    obtain ⟨fresh, rest⟩ := List.nodup_cons.mp distinct
    have absent : ∀ list, (name, list) ∉ groups := fun list member =>
      fresh (List.mem_map.mpr ⟨_, member, rfl⟩)
    simp only [add]
    split
    · next same =>
      subst same
      simp only [List.mem_cons, Prod.mk.injEq, List.map_cons, true_or, not_true_eq_false,
        and_false, or_false]
      constructor
      · rintro (⟨rfl, rfl⟩ | inside)
        · exact .inr ⟨rfl, stored, rfl, .inl ⟨trivial, rfl⟩⟩
        · have differ : other ≠ name := fun same => absent values (same ▸ inside)
          exact .inl ⟨differ, .inr inside⟩
      · rintro (⟨differ, ⟨same, -⟩ | inside⟩ | ⟨rfl, before, rfl, ⟨-, rfl⟩ | inside⟩)
        · exact absurd same differ
        · exact .inr inside
        · exact .inl ⟨rfl, rfl⟩
        · exact absurd inside (absent before)
    · next differ =>
      simp only [List.mem_cons, step rest, List.map_cons, Prod.mk.injEq, not_or]
      have other' : ¬ key = name := fun same => differ same.symm
      constructor
      · rintro (⟨rfl, rfl⟩ | ⟨unlike, inside⟩ | ⟨rfl, before, rfl, extended | opened⟩)
        · exact .inl ⟨differ, .inl ⟨rfl, rfl⟩⟩
        · exact .inl ⟨unlike, .inr inside⟩
        · exact .inr ⟨rfl, before, rfl, .inl (.inr extended)⟩
        · exact .inr ⟨rfl, before, rfl, .inr ⟨opened.1, other', opened.2⟩⟩
      · rintro (⟨unlike, same | inside⟩ | ⟨rfl, before, rfl, (same | extended) | opened⟩)
        · exact .inl same
        · exact .inr (.inl ⟨unlike, inside⟩)
        · exact absurd same.1 other'
        · exact .inr (.inr ⟨rfl, before, rfl, .inl extended⟩)
        · exact .inr (.inr ⟨rfl, before, rfl, .inr ⟨opened.1, opened.2.2⟩⟩)

theorem group_concat (list : List (K × V)) (entry : K × V) :
    group (list ++ [entry]) = add entry.1 entry.2 (group list) := by
  simp [group, List.foldl_append]

theorem group_nodup (list : List (K × V)) : ((group list).map Prod.fst).Nodup := by
  induction list using List.reverseRecOn with
  | nil => exact List.nodup_nil
  | append_singleton list entry step =>
    rw [group_concat]
    exact nodup_add _ _ step

theorem mem_group (list : List (K × V)) (key : K) (values : List V) :
    (key, values) ∈ group list ↔ values = select key list ∧ values ≠ [] := by
  induction list using List.reverseRecOn generalizing key values with
  | nil => simp [group, select]
  | append_singleton list entry step =>
    obtain ⟨name, value⟩ := entry
    have keyed : name ∈ (group list).map Prod.fst ↔ select name list ≠ [] := by
      simp only [List.mem_map, Prod.exists, step]
      constructor
      · rintro ⟨_, _, ⟨rfl, nonempty⟩, rfl⟩
        exact nonempty
      · intro nonempty
        exact ⟨name, _, ⟨rfl, nonempty⟩, rfl⟩
    rw [group_concat, mem_add _ _ _ _ (group_nodup list)]
    simp only [step, keyed]
    by_cases same : key = name
    · subst same
      have longer : select key (list ++ [(key, value)]) = select key list ++ [value] := by
        simp [select]
      rw [longer]
      constructor
      · rintro (⟨differ, -⟩ | ⟨-, before, rfl, ⟨rfl, -⟩ | ⟨rfl, empty⟩⟩)
        · exact absurd rfl differ
        · simp
        · simp only [ne_eq, not_not] at empty
          simp [empty]
      · rintro ⟨rfl, -⟩
        refine .inr ⟨rfl, select key list, rfl, ?_⟩
        by_cases empty : select key list = []
        · exact .inr ⟨empty, by simp [empty]⟩
        · exact .inl ⟨rfl, empty⟩
    · have kept : select key (list ++ [(name, value)]) = select key list := by
        simp [select, Ne.symm same]
      rw [kept]
      simp [same]

theorem flatMap_add (key : K) (value : V) (groups : List (K × List V)) :
    ((add key value groups).flatMap fun group => group.2.map fun value => (group.1, value)).Perm
      ((groups.flatMap fun group => group.2.map fun value => (group.1, value)) ++
        [(key, value)]) := by
  induction groups with
  | nil => simp [add]
  | cons head groups step =>
    obtain ⟨name, values⟩ := head
    simp only [add]
    split
    · next same =>
      subst same
      simp only [List.flatMap_cons, List.map_append, List.map_cons, List.map_nil, List.append_assoc]
      exact List.perm_append_comm.append_left _
    · simp only [List.flatMap_cons, List.append_assoc]
      exact step.append_left _

theorem group_perm (list : List (K × V)) :
    ((group list).flatMap fun group => group.2.map fun value => (group.1, value)).Perm list := by
  induction list using List.reverseRecOn with
  | nil => exact .refl _
  | append_singleton list entry step =>
    rw [group_concat]
    exact (flatMap_add _ _ _).trans (step.append_right _)

end Jst.Grouping
