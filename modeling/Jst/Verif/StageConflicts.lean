import Jst.Verif.StageShapes
/-!
# Conflicts of stages

On the normal locations that `artifacts_tree` makes, `tree_conflict` finds exactly the locations
that cannot be staged together, whatever their order is.
-/
namespace Jst.Verif.StageConflicts

open Jst.SortedMap Jst.Path Jst.Target Jst.Verif.StageTrees Jst.Verif.StageShapes

/-- Locations that can be staged together. -/
structure Stageable (keys : List Str) : Prop where
  relative : ∀ key ∈ keys, isAbsolute key = false
  nonUpwards : ∀ key ∈ keys, (segments key).head? ≠ some up
  alone : here ∈ keys → keys = [here]
  apart : ∀ left ∈ keys, ∀ right ∈ keys, ¬Ancestor left right

theorem segments_here : segments here = [] := by decide

theorem eq_join_elements {key : Str} (relative : isAbsolute key = false)
    (normal : toNormalPath key = key) : key = join false (elements key) ∧
      (key = here ∨ elements key = segments key ∧ segments key ≠ []) := by
  by_cases nothing : segments key = []
  · have isHere : key = here := by
      rw [← normal, toNormalPath_eq, relative, nothing]
      rfl
    subst isHere
    exact ⟨by decide, .inl rfl⟩
  · have text := eq_join relative normal nothing
    have same : elements key = segments key := by
      rw [text, elements_join (resolved_segments _).plain nothing, ← text]
    exact ⟨same ▸ text, .inr ⟨same, nothing⟩⟩

theorem of_mem_parentsUpTo {names : List Str} {steps : Nat} {parent : Str}
    (plain : ∀ name ∈ names, Plain name) (member : parent ∈ parentsUpTo steps (join false names)) :
    ∃ front below, names = front ++ below ∧ front ≠ [] ∧ below ≠ [] ∧
      parent = join false front := by
  induction steps generalizing names with
  | zero => cases member
  | succ steps step =>
    rw [parentsUpTo] at member
    cases names using List.reverseRecOn with
    | nil =>
      have none : parentPath (join false []) = [] := by decide
      simp [none] at member
    | append_singleton front last =>
      have front' : ∀ name ∈ front, Plain name := fun name inside =>
        plain name (mem_append_left _ inside)
      by_cases filled : front = []
      · subst filled
        rw [nil_append] at plain member
        have none : parentPath (join false [last]) = [] := by
          rw [parentPath, filename_join plain (by simp)]
          simp [join]
        simp [none] at member
      · rw [parentPath_join front' filled (plain last (by simp)),
          if_neg (by simpa using join_ne_nil front' filled)] at member
        cases mem_cons.mp member with
        | inl same => exact ⟨front, [last], rfl, filled, by simp, same⟩
        | inr later =>
          obtain ⟨before, below, rfl, some', -, text⟩ := step front' later
          exact ⟨before, below ++ [last], by simp, some', by simp, text⟩

variable {Artifact : Type} {stage last : Stage Artifact}

theorem treeConflict_eq_none (normal : ∀ key ∈ stage.keys, toNormalPath key = key)
    (good : Stageable stage.keys) : treeConflict stage.keys = none := by
  by_contra conflict
  obtain ⟨before, path, after, split, reported⟩ :=
    (treeConflict_isSome stage.keys).mp (Option.isSome_iff_ne_none.mpr conflict)
  have inside : path ∈ stage.keys := by simp [split]
  have earlier : ∀ key ∈ before, key ∈ stage.keys ∧ key < path := by
    intro key member
    have ordered : stage.keys.Pairwise (· < ·) := pairwise_map.mpr stage.ordered
    rw [split] at ordered ⊢
    exact ⟨mem_append_left _ member,
      (List.pairwise_append.mp ordered).2.2 key member path mem_cons_self⟩
  have written : ∀ key ∈ stage.keys, _ := fun key member =>
    eq_join_elements (good.relative key member) (normal key member)
  have injective : ∀ key ∈ before, elements key ≠ elements path := by
    intro key member same
    have less := earlier key member
    rw [(written key less.1).1, same, ← (written path inside).1] at less
    exact lt_irrefl _ less.2
  rcases reported with ⟨isHere, many⟩ | absolute | upwards | repeated | ⟨parent, member, seen⟩
  · rw [isHere] at inside
    rw [good.alone inside] at many
    exact absurd many (by decide)
  · exact absurd absolute (by simp [good.relative path inside])
  · rcases (written path inside).2 with isHere | ⟨same, -⟩
    · exact absurd (isHere ▸ upwards) (by decide)
    · exact good.nonUpwards path inside (same ▸ upwards)
  · obtain ⟨key, member, same⟩ := mem_map.mp repeated
    exact injective key member same
  · rcases (written path inside).2 with isHere | ⟨same, some'⟩
    · have none : parents here = [] := by decide
      rw [isHere, none] at member
      cases member
    · have plain := (resolved_segments path).plain
      have text := (written path inside).1
      rw [same] at text
      rw [parents, text] at member
      obtain ⟨front, below, names, filled, down, rfl⟩ := of_mem_parentsUpTo plain member
      rw [elements_join (fun name member => plain name (by simp [names, member])) filled] at seen
      cases mem_cons.mp seen with
      | inl whole =>
        rw [same, names] at whole
        exact down (List.self_eq_append_right.mp whole)
      | inr other =>
        obtain ⟨key, member, spelled⟩ := mem_map.mp other
        have keyIn := (earlier key member).1
        rcases (written key keyIn).2 with isHere | ⟨same', -⟩
        · -- `.` is then the only location
          have only := good.alone (isHere ▸ keyIn)
          rw [only, mem_singleton] at inside
          exact some' (inside ▸ segments_here)
        · refine good.apart key keyIn path inside ⟨?_, below, down, fun upwards => ?_, ?_⟩
          · rw [good.relative key keyIn, good.relative path inside]
          · obtain ⟨count, rest, shape, noUp, -⟩ := (resolved_segments path).ups
            cases count with
            | zero =>
              have inside := names ▸ mem_append_right front upwards
              rw [shape] at inside
              exact noUp (by simpa using inside)
            | succ count => exact good.nonUpwards path inside (by rw [shape]; rfl)
          · rw [names, ← same', spelled]

theorem stageable_of_wellFormed (good : WellFormed stage)
    (noConflict : treeConflict stage.keys = none) : Stageable stage.keys := by
  refine ⟨fun key member => (good.good key member).relative,
    fun key member => (good.good key member).nonUpwards, fun member => ?_, good.apart⟩
  by_contra more
  have unseen : ¬Visible stage.keys := by
    rw [← treeConflict_isSome, noConflict]
    exact false_ne_true
  obtain ⟨before, after, split⟩ := append_of_mem member
  refine unseen ⟨before, here, after, split, .inl ⟨rfl, ?_⟩⟩
  by_contra small
  rw [split, length_append, length_cons] at small
  have none : before = [] ∧ after = [] := by
    rw [← List.length_eq_zero_iff, ← List.length_eq_zero_iff]
    omega
  exact more (by rw [split, none.1, none.2]; rfl)

/-- One location does not have different artifacts. -/
def Same (left right : Str × Artifact) : Prop :=
  toNormalPath left.1 = toNormalPath right.1 → left.2 = right.2

theorem artifactsTreeFrom_ok [DecidableEq Artifact] (stage : Stage Artifact)
    (entries : List (Str × Artifact)) :
    (∃ last, artifactsTreeFrom stage entries = .ok last) ↔ entries.Pairwise Same ∧
      ∀ entry ∈ entries, ∀ other, find (toNormalPath entry.1) stage.entries = some other →
        other = entry.2 := by
  induction entries generalizing stage with
  | nil => simp [artifactsTreeFrom]
  | cons entry rest step =>
    rw [artifactsTreeFrom, pairwise_cons]
    cases found : find (toNormalPath entry.1) stage.entries with
    | some other =>
      by_cases same : other = entry.2
      · simp only [same, if_true, step, forall_mem_cons, found, Same]
        grind
      · simp [same, found]
    | none =>
      have placed : ∀ query other,
          find query (emplace (toNormalPath entry.1) entry.2 stage.entries) = some other ↔
            find query stage.entries = some other ∨
              entry.2 = other ∧ toNormalPath entry.1 = query := by
        intro query other
        rw [find_emplace]
        by_cases same : toNormalPath entry.1 = query
        · simp [← same, found]
        · simp [same]
      simp only [step, placed, forall_mem_cons, found, Same, or_imp, and_imp, forall_and,
        forall_eq', reduceCtorEq, false_imp_iff, implies_true, true_and]
      tauto

/-- `artifacts_tree` fails just if two locations are the same and have different artifacts, and on
what it makes, `tree_conflict` finds nothing just if the locations can be staged together. -/
theorem artifactsTree_treeConflict [DecidableEq Artifact] (stage : Stage Artifact) :
    ((∃ location, artifactsTree stage = .error location) ↔
      ∃ left ∈ stage.entries, ∃ right ∈ stage.entries,
        toNormalPath left.1 = toNormalPath right.1 ∧ left.2 ≠ right.2) ∧
    ∀ last, artifactsTree stage = .ok last →
      (treeConflict last.keys = none ↔ Stageable last.keys) := by
  constructor
  · have made := (artifactsTreeFrom_ok .empty stage.entries).trans
      (and_iff_left fun entry _ other found => nomatch found)
    have all : stage.entries.Pairwise Same ↔
        ∀ left ∈ stage.entries, ∀ right ∈ stage.entries, Same left right :=
      ⟨fun pairs _ leftIn _ rightIn => pairs.forall_of_forall_of_flip (fun _ _ _ => rfl)
        (pairs.imp fun same other => (same other.symm).symm) leftIn rightIn,
        List.pairwise_of_forall_mem_list⟩
    rw [← artifactsTree, all] at made
    cases result : artifactsTree stage with
    | error location =>
      simp [result, Same] at made
      simpa using made
    | ok last =>
      simp [result, Same] at made
      simpa using made
  · intro last made
    have normal := artifactsTreeFrom_normal (fun key member => by cases member) made
    exact ⟨fun none => stageable_of_wellFormed (wellFormed_of_normal normal none) none,
      treeConflict_eq_none normal⟩

end Jst.Verif.StageConflicts
