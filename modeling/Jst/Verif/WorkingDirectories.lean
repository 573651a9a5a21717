import Jst.Target.WorkingDirectory
import Jst.Utils.RelativePath
import Jst.Verif.StageShapes
/-!
# Working directories that are made to exist

`add_dir_for` looks for a location at, above or below the working directory by comparing path
objects, and leaves the stage alone if there is one. This is right if the comparison finds a
location exactly where comparing the normalised working directory would.
-/
namespace Jst.Verif.WorkingDirectories

open Jst.SortedMap Jst.Path Jst.Target Jst.Verif.StageShapes

variable {Artifact : Type}

/-- One of two locations stands above the other, or they are the same. -/
def Related (left right : List Str) : Prop := left <+: right ∨ right <+: left

instance (left right : List Str) : Decidable (Related left right) :=
  inferInstanceAs (Decidable (_ ∨ _))

/-- Locations that are still free of conflicts when they are normalised. -/
structure ConflictFree (keys : List Str) : Prop where
  distinct : ∀ left ∈ keys, ∀ right ∈ keys, toNormalPath left = toNormalPath right → left = right
  inside : ∀ key ∈ keys, pathIsNonUpwards key = true
  apart : ∀ left ∈ keys, ∀ right ∈ keys, ¬Ancestor left right

/-- The normalised working directory is implied to be a directory. -/
def Implied (cwd : Str) (stage : Stage Artifact) : Prop :=
  segments cwd = [] ∨ ∃ key ∈ stage.keys, Ancestor cwd key ∨ segments key <+: segments cwd

/-- What making a working directory exist is to do to a stage. -/
structure DirAdded (cwd : Str) (stage result : Stage Artifact) : Prop where
  kept : ∀ key artifact, find key stage.entries = some artifact → find key result.entries = some artifact
  conflictFree : ConflictFree result.keys
  implied : Implied cwd result

/-- The comparison as written agrees with that of the normalised working directory: where it finds a
location so does the other, unless the working directory is the top level, and conversely. -/
def ComparedRight (cwd : Str) (keys : List Str) : Prop :=
  ((∃ key ∈ keys, Related (segments key) (elements cwd)) →
    segments cwd = [] ∨ ∃ key ∈ keys, Related (segments key) (segments cwd)) ∧
  ((∃ key ∈ keys, Related (segments key) (segments cwd)) →
    cwd = [] ∨ cwd = here ∨ ∃ key ∈ keys, Related (segments key) (elements cwd))

instance (cwd : Str) (keys : List Str) : Decidable (ComparedRight cwd keys) :=
  inferInstanceAs (Decidable ((_ → _ ∨ _) ∧ (_ → _ ∨ _ ∨ _)))

section Parents

theorem length_parentPath {path : Str} (some' : path ≠ []) (relative : isAbsolute path = false) :
    (parentPath path).length < path.length := by
  have filled := List.length_pos_iff.mpr some'
  have shorter : ∀ text : Str, ((text.reverse.dropWhile (· = slash)).reverse).length ≤ text.length := by
    intro text
    rw [List.length_reverse]
    exact (List.length_dropWhile_le _ _).trans (by simp)
  rw [parentPath]
  split
  · next empty =>
    have relativeFront : isAbsolute (path.take (path.length - (filename path).length)) = false := by
      cases path with
      | nil => rfl
      | cons byte rest =>
        cases (byte :: rest).length - (filename (byte :: rest)).length with
        | zero => rfl
        | succ count => exact relative
    rw [(trim_slashes relativeFront).1 (by simpa using empty)]
    exact filled
  · by_cases noName : filename path = []
    · obtain ⟨front, slashed⟩ := (eq_slash_of_filename noName).resolve_left some'
      rw [noName, length_nil, Nat.sub_zero, List.take_length, slashed, reverse_append,
        List.reverse_singleton, singleton_append, List.dropWhile_cons, if_pos (by simp)]
      have fewer := shorter front
      rw [length_append, length_singleton]
      omega
    · have named := List.length_pos_iff.mpr noName
      have fewer := shorter (path.take (path.length - (filename path).length))
      rw [length_take] at fewer
      omega

theorem mem_parentsUpTo_iff {front : List Str} {steps : Nat} {path : Str} (some' : path ≠ [])
    (relative : isAbsolute path = false) (enough : path.length ≤ steps) :
    (∃ other ∈ path :: parentsUpTo steps path, elements other = front) ↔
      front ≠ [] ∧ front <+: elements path := by
  induction steps generalizing path with
  | zero => exact absurd (List.length_eq_zero_iff.mp (Nat.le_zero.mp enough)) some'
  | succ steps step =>
    have shorter := length_parentPath some' relative
    obtain ⟨parent, relativeParent⟩ := elements_parentPath relative
    have filled := elements_ne_nil some' relative
    have split := List.dropLast_append_getLast filled
    have fronts : front <+: elements path ↔ front = elements path ∨ front <+: elements (parentPath path) := by
      rw [parent]
      conv_lhs => rw [← split]
      rw [List.prefix_concat_iff, split]
    rw [fronts, parentsUpTo]
    by_cases empty : parentPath path = []
    · have nothing : elements ([] : Str) = [] := by decide
      rw [empty, nothing, List.prefix_nil]
      simp only [List.isEmpty_nil, if_true, mem_singleton, exists_eq_left]
      constructor
      · rintro rfl
        exact ⟨filled, .inl rfl⟩
      · rintro ⟨some', same | none'⟩
        · exact same.symm
        · exact absurd none' some'
    · have deeper := step empty relativeParent (by omega)
      simp only [List.isEmpty_iff, if_neg empty]
      rw [List.exists_mem_cons_iff, deeper]
      constructor
      · rintro (rfl | ⟨some', inside⟩)
        · exact ⟨filled, .inl rfl⟩
        · exact ⟨some', .inr inside⟩
      · rintro ⟨some', rfl | inside⟩
        · exact .inl rfl
        · exact .inr ⟨some', inside⟩

end Parents

section Comparison

variable {cwd : Str} {stage : Stage Artifact}

theorem elements_good {key : Str} (good : GoodKey key) :
    key = here ∧ segments key = [] ∨ key ≠ [] ∧ key ≠ here ∧ segments key ≠ [] ∧
      elements key = segments key := by
  cases some' : segments key with
  | nil =>
    left
    refine ⟨?_, rfl⟩
    rw [← good.normal, toNormalPath_eq, good.relative, some']
    rfl
  | cons name rest =>
    right
    have filled : segments key ≠ [] := some' ▸ cons_ne_nil _ _
    have text := eq_join good.relative good.normal filled
    have named := elements_join (resolved_segments key).plain filled
    rw [← text, some'] at named
    refine ⟨?_, ?_, cons_ne_nil _ _, named⟩
    · rintro rfl
      rw [show segments [] = [] by decide] at some'
      cases some'
    · rintro rfl
      rw [show segments here = [] by decide] at some'
      cases some'

theorem blocksDir_iff (some' : cwd ≠ []) (relative : isAbsolute cwd = false) {key : Str}
    (good : GoodKey key) : blocksDir cwd key = true ↔ Related (segments key) (elements cwd) := by
  cases elements_good good with
  | inl only =>
    obtain ⟨isHere, nothing⟩ := only
    subst isHere
    simp [blocksDir, Related, nothing]
  | inr named =>
    obtain ⟨filled, notHere, some'', same⟩ := named
    have above := @mem_parentsUpTo_iff (elements key) _ _ some' relative le_rfl
    have below := @mem_parentsUpTo_iff (elements cwd) _ _ filled good.relative le_rfl
    rw [← parents] at above below
    simp only [blocksDir, or_eq_true, List.isEmpty_iff, filled, decide_eq_true_eq, notHere,
      List.any_eq_true, false_or]
    rw [above, below, same, Related]
    simp only [ne_eq, some'', not_false_eq_true, true_and, elements_ne_nil some' relative]

theorem conflictFree_of_wellFormed (wellFormed : WellFormed stage) : ConflictFree stage.keys := by
  refine ⟨fun left leftIn right rightIn same => ?_, fun key member => ?_, wellFormed.apart⟩
  · rw [(wellFormed.good left leftIn).normal, (wellFormed.good right rightIn).normal] at same
    exact same
  · have good := wellFormed.good key member
    exact pathIsNonUpwards_iff.mpr
      ⟨good.relative, fun upwards => good.nonUpwards ((resolved_segments key).up_mem_iff.mp upwards)⟩

theorem related_iff {left right : Str} (leftGood : pathIsNonUpwards left = true)
    (rightGood : pathIsNonUpwards right = true) : Related (segments left) (segments right) ↔
      toNormalPath left = toNormalPath right ∨ Ancestor left right ∨ Ancestor right left := by
  obtain ⟨relativeLeft, downLeft⟩ := pathIsNonUpwards_iff.mp leftGood
  obtain ⟨relativeRight, downRight⟩ := pathIsNonUpwards_iff.mp rightGood
  have strict : ∀ {above other : Str}, isAbsolute above = isAbsolute other → up ∉ segments other →
      segments above <+: segments other →
      toNormalPath above = toNormalPath other ∨ Ancestor above other := by
    rintro above other absolute down ⟨below, names⟩
    by_cases nothing : below = []
    · left
      rw [toNormalPath_eq_iff]
      exact ⟨absolute, by rw [← names, nothing, append_nil]⟩
    · right
      refine ⟨absolute, below, nothing, fun upwards => down ?_, names.symm⟩
      rw [← names]
      exact mem_append_right _ upwards
  constructor
  · rintro (inside | inside)
    · cases strict (relativeLeft.trans relativeRight.symm) downRight inside with
      | inl same => exact .inl same
      | inr above => exact .inr (.inl above)
    · cases strict (relativeRight.trans relativeLeft.symm) downLeft inside with
      | inl same => exact .inl same.symm
      | inr above => exact .inr (.inr above)
  · rintro (same | ⟨-, below, -, -, names⟩ | ⟨-, below, -, -, names⟩)
    · exact .inl ((toNormalPath_eq_iff.mp same).2 ▸ List.prefix_rfl)
    · exact .inl ⟨below, names.symm⟩
    · exact .inr ⟨below, names.symm⟩

theorem implied_iff (accepted : pathIsNonUpwards cwd = true) (inside : ∀ key ∈ stage.keys, pathIsNonUpwards key = true) :
    Implied cwd stage ↔
      segments cwd = [] ∨ ∃ key ∈ stage.keys, Related (segments key) (segments cwd) := by
  refine or_congr_right (exists_congr fun key => and_congr_right fun member => ?_)
  rw [related_iff (inside key member) accepted]
  constructor
  · rintro (above | below)
    · exact .inr (.inr above)
    · exact (related_iff (inside key member) accepted).mp (.inl below)
  · rintro (same | ⟨-, below, -, -, names⟩ | above)
    · exact .inr ((toNormalPath_eq_iff.mp same).2 ▸ List.prefix_rfl)
    · exact .inr ⟨below, names.symm⟩
    · exact .inl above

theorem conflictFree_add_iff {keys more : List Str} (free : ConflictFree keys)
    (accepted : pathIsNonUpwards cwd = true) (new : cwd ∉ keys)
    (added : ∀ key, key ∈ more ↔ key ∈ keys ∨ key = cwd) :
    ConflictFree more ↔ ¬∃ key ∈ keys, Related (segments key) (segments cwd) := by
  constructor
  · rintro conflictFree ⟨key, member, related⟩
    have keyIn := (added key).mpr (.inl member)
    have cwdIn := (added cwd).mpr (.inr rfl)
    rcases (related_iff (free.inside key member) accepted).mp related with same | above | below
    · exact new (conflictFree.distinct key keyIn cwd cwdIn same ▸ member)
    · exact conflictFree.apart key keyIn cwd cwdIn above
    · exact conflictFree.apart cwd cwdIn key keyIn below
  · intro unrelated
    have apart : ∀ key ∈ keys, toNormalPath key ≠ toNormalPath cwd ∧ ¬Ancestor key cwd ∧ ¬Ancestor cwd key := by
      intro key member
      have unlike : ¬Related (segments key) (segments cwd) :=
        fun related => unrelated ⟨key, member, related⟩
      rw [related_iff (free.inside key member) accepted, not_or, not_or] at unlike
      exact unlike
    have notSelf : ¬Ancestor cwd cwd := by
      rintro ⟨-, below, down, -, names⟩
      exact down (List.self_eq_append_right.mp names)
    refine ⟨fun left leftIn right rightIn same => ?_, fun key member => ?_, fun left leftIn right rightIn above => ?_⟩
    · cases (added left).mp leftIn with
      | inl leftOld =>
        cases (added right).mp rightIn with
        | inl rightOld => exact free.distinct left leftOld right rightOld same
        | inr rightNew => exact absurd (rightNew ▸ same) (apart left leftOld).1
      | inr leftNew =>
        cases (added right).mp rightIn with
        | inl rightOld => exact absurd (leftNew ▸ same).symm (apart right rightOld).1
        | inr rightNew => exact leftNew.trans rightNew.symm
    · cases (added key).mp member with
      | inl old => exact free.inside key old
      | inr isNew => exact isNew ▸ accepted
    · cases (added left).mp leftIn with
      | inl leftOld =>
        cases (added right).mp rightIn with
        | inl rightOld => exact free.apart left leftOld right rightOld above
        | inr rightNew => exact (apart left leftOld).2.1 (rightNew ▸ above)
      | inr leftNew =>
        cases (added right).mp rightIn with
        | inl rightOld => exact (apart right rightOld).2.2 (leftNew ▸ above)
        | inr rightNew =>
          rw [leftNew, rightNew] at above
          exact notSelf above

end Comparison

/-- Making a working directory exist does what it is to do exactly if the working directory is
compared right with the locations of the stage. -/
theorem dirAdded_iff (createTree : TreeContent Artifact → Artifact) (cwd : Str)
    (stage : Stage Artifact) (trees : List (TreeContent Artifact))
    (normal : ∀ key ∈ stage.keys, toNormalPath key = key) (noConflict : treeConflict stage.keys = none)
    (accepted : pathIsNonUpwards cwd = true) :
    DirAdded cwd stage (addDirFor createTree cwd stage trees).1 ↔ ComparedRight cwd stage.keys := by
  have wellFormed := wellFormed_of_normal normal noConflict
  have free := conflictFree_of_wellFormed wellFormed
  obtain ⟨relative, -⟩ := pathIsNonUpwards_iff.mp accepted
  have unchanged : DirAdded cwd stage stage ↔
      segments cwd = [] ∨ ∃ key ∈ stage.keys, Related (segments key) (segments cwd) := by
    rw [← implied_iff accepted free.inside]
    exact ⟨fun added => added.implied, fun implied => ⟨fun _ _ found => found, free, implied⟩⟩
  unfold addDirFor
  by_cases topLevel : cwd = [] ∨ cwd = here
  · have nothing : segments cwd = [] := by
      cases topLevel with
      | inl empty => rw [empty]; decide
      | inr isHere => rw [isHere]; decide
    rw [if_pos (by simpa using topLevel), unchanged, ComparedRight]
    simp only [nothing, true_or, implies_true, true_and, true_iff]
    intro
    tauto
  · rw [if_neg (by simpa using topLevel)]
    rw [not_or] at topLevel
    have blocked : stage.keys.any (blocksDir cwd) = true ↔
        ∃ key ∈ stage.keys, Related (segments key) (elements cwd) := by
      rw [List.any_eq_true]
      exact exists_congr fun key => and_congr_right fun member =>
        blocksDir_iff topLevel.1 relative (wellFormed.good key member)
    rw [ComparedRight, ← blocked]
    by_cases found : stage.keys.any (blocksDir cwd) = true
    · rw [if_pos found, unchanged]
      simp [found]
    · rw [if_neg found]
      have new : cwd ∉ stage.keys := by
        intro member
        refine found (blocked.mpr ⟨cwd, member, ?_⟩)
        cases elements_good (wellFormed.good cwd member) with
        | inl only => exact absurd only.1 topLevel.2
        | inr named => exact .inl (named.2.2.2 ▸ List.prefix_rfl)
      have alone : ConflictFree (stage.overlay ⟨[(cwd, createTree [])], by simp [Ascending]⟩).keys ↔
          ¬∃ key ∈ stage.keys, Related (segments key) (segments cwd) :=
        conflictFree_add_iff free accepted new fun key => mem_overlay.trans (or_congr_right mem_singleton)
      constructor
      · intro added
        exact ⟨fun raw => absurd raw found, fun related => absurd related (alone.mp added.conflictFree)⟩
      · rintro ⟨-, agrees⟩
        refine ⟨fun key artifact present => ?_, alone.mpr fun related => ?_,
          .inr ⟨cwd, mem_overlay.mpr (.inr (mem_singleton_self _)), .inr List.prefix_rfl⟩⟩
        · have other : key ≠ cwd := by
            rintro rfl
            exact new (mem_keys.mpr (by rw [present]; rfl))
          show find key (union [(cwd, createTree [])] stage.entries) = _
          rw [find_union, find_cons, if_neg other.symm, find_nil, none_or, present]
        · rcases agrees related with empty | isHere | raw
          · exact topLevel.1 empty
          · exact topLevel.2 isHere
          · exact found raw

/-- A stage with the artifact 1 at `a`. -/
def fileAtA : Stage Nat := ⟨[(lit "a", 1)], by decide⟩

theorem added_beside : DirAdded (lit "b/./c") fileAtA (addDirFor (fun _ => 0) (lit "b/./c") fileAtA []).1 :=
  (dirAdded_iff (fun _ => 0) _ fileAtA [] (by decide) (by decide) (by decide)).mpr (by decide)

theorem conflict_added : ¬∀ (createTree : TreeContent Nat → Nat) (cwd : Str) (stage : Stage Nat)
    (trees : List (TreeContent Nat)), (∀ key ∈ stage.keys, toNormalPath key = key) →
      treeConflict stage.keys = none → pathIsNonUpwards cwd = true →
      DirAdded cwd stage (addDirFor createTree cwd stage trees).1 := by
  intro always
  have added := always (fun _ => 0) (lit "./a") fileAtA [] (by decide) (by decide) (by decide)
  exact absurd (added.conflictFree.distinct (lit "./a") (by decide) (lit "a") (by decide) (by decide))
    (by decide)

end Jst.Verif.WorkingDirectories
