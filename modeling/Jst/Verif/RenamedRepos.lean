import Jst.Verif.BisimilarRepos
import Mathlib.Algebra.Order.BigOperators.Group.List
import Mathlib.Algebra.Order.Ring.Nat
/-!
# Renaming repositories

What a repository denotes is its file names and roots, up to where these are fetched from and the
pragmas `absent` and `to_git`, together with what the repositories denote to which bindings and
computed roots lead. Of bisimilar repositories one is the representative, to which others are
renamed.
-/
namespace Jst.Verif.RenamedRepos

open SortedMap Tools Bisimulation BisimilarRepos
open Option (Rel map_id)

variable {Value : Type}

/-! ## What repositories denote -/

/-- The pragma of a root that matters. -/
def special (root : Root Value) : Option Value := root.pragma.bind (·.special)

/-- A description mentions another repository. -/
inductive Mentions (desc : Repository Value) (other : Str) : Prop where
  | binding (link : Str) (bound : find link (bindingsOf desc) = some other)
  | named (rootName : RootName) (isNamed : desc.reference rootName = some (.named other))
  | computed (rootName : RootName) (root : Root Value)
    (inPlace : desc.reference rootName = some (.root root)) (repo : computedRepo root = some other)

/-- References lead to repositories, and chains of roots given by name end. -/
structure WellFormed (repos : Repositories Value) : Prop where
  closed : ∀ name desc, find name repos = some desc → ∀ other, Mentions desc other →
    (find other repos).isSome
  acyclic : ∃ rank : Str → Nat, ∀ name desc other, find name repos = some desc →
    desc.repository = .named other → rank other < rank name

section Denotation

variable [EmptyCollection Value]

/-- The system of all repositories of all configurations, with what they denote. -/
def meaning (Value : Type) [EmptyCollection Value] (depth : Nat) :
    System (Repositories Value × Str) Link
      (Option (Str × Str × Str) × (RootName → Option (Location Value × Option Value))) where
  label := fun state =>
    ((find state.2 state.1).map fileNames, fun rootName =>
      (resolved state.1 depth state.2 rootName).map fun root => (normal root.location, special root))
  next := fun state link => (follow state.1 depth state.2 link).map (state.1, ·)

/-- Deduplication preserves meaning. -/
structure Preserves (config : Configuration Value) (userKeep : List Str) (depth : Nat)
    (new : Repositories Value) : Prop where
  kept : ∀ name ∈ keepNames config userKeep, (find name config.repositories).isSome →
    (find name new).isSome
  closed : ∀ name desc, find name new = some desc → ∀ other, Mentions desc other →
    (find other new).isSome
  same : ∀ name, (find name new).isSome →
    Bisimilar (meaning Value depth) (config.repositories, name) (new, name)

/-! ## When it does -/

/-- A repository stands for those that are bisimilar: one with a root described in place if there is
any, of these one that is kept if there is any, of these the first. -/
structure IsRepresentative (repos : Repositories Value) (keep : List Str) (depth : Nat)
    (rep name : Str) : Prop where
  isRepo : (find rep repos).isSome
  alike : Bisimilar (system repos depth) name rep
  rooted : ∀ other, (find other repos).isSome → Bisimilar (system repos depth) name other →
    hasRoot repos other = true → hasRoot repos rep = true
  kept : ∀ other, (find other repos).isSome → Bisimilar (system repos depth) name other →
    hasRoot repos other = hasRoot repos rep → other ∈ keep → rep ∈ keep
  first : ∀ other, (find other repos).isSome → Bisimilar (system repos depth) name other →
    hasRoot repos other = hasRoot repos rep → (other ∈ keep ↔ rep ∈ keep) →
    representativeKey rep ≤ representativeKey other

/-- A repository is not kept and another one stands for it. -/
structure Merged (repos : Repositories Value) (keep : List Str) (depth : Nat) (name rep : Str) :
    Prop where
  isRepo : (find name repos).isSome
  dropped : name ∉ keep
  apart : name ≠ rep
  represents : IsRepresentative repos keep depth rep name

/-- A repository is left. -/
def Left (repos : Repositories Value) (keep : List Str) (depth : Nat) (name : Str) : Prop :=
  ∀ rep, ¬ Merged repos keep depth name rep

/-- Where links lead from a repository. -/
def walk (repos : Repositories Value) (depth : Nat) : Option Str → List Link → Option Str
  | name, [] => name
  | name, link :: path => walk repos depth (name.bind (follow repos depth · link)) path

/-- The special pragmas of the roots of a repository. -/
def specials (repos : Repositories Value) (depth : Nat) (name : Str) : RootName → Option (Option Value) :=
  fun rootName => (resolved repos depth name rootName).map special

/-- Two repositories have the same special pragmas, wherever links lead. -/
def SameSpecials (repos : Repositories Value) (depth : Nat) (left right : Option Str) : Prop :=
  ∀ path, (walk repos depth left path).map (specials repos depth) =
    (walk repos depth right path).map (specials repos depth)

/-- Two repositories have roots with the same special pragmas, wherever these lead. -/
structure SameRootSpecials (repos : Repositories Value) (depth : Nat) (left right : Str) : Prop where
  root : specials repos depth left .repository = specials repos depth right .repository
  computed : SameSpecials repos depth (follow repos depth left (.computed .repository))
    (follow repos depth right (.computed .repository))

/-- Roots that are not renamed do not need to be, and references that are renamed lead to the same
special pragmas. -/
structure Harmless (repos : Repositories Value) (keep : List Str) (depth : Nat) : Prop where
  expressionRoot : ∀ name desc, find name repos = some desc → Left repos keep depth name →
    ∀ other, desc.expressionRoot = some (.named other) → Left repos keep depth other
  /-- Computed roots that are not that of `repository`. -/
  inPlace : ∀ name desc, find name repos = some desc → Left repos keep depth name →
    ∀ rootName root other, rootName ≠ .repository → desc.reference rootName = some (.root root) →
      computedRepo root = some other → Left repos keep depth other
  bindings : ∀ name desc, find name repos = some desc → Left repos keep depth name →
    ∀ link other rep, find link (bindingsOf desc) = some other →
      Merged repos keep depth other rep → SameSpecials repos depth (some other) (some rep)
  /-- The computed root of `repository`. -/
  computed : ∀ name desc, find name repos = some desc → Left repos keep depth name →
    ∀ root other rep, desc.repository = .root root → computedRepo root = some other →
      Merged repos keep depth other rep → SameSpecials repos depth (some other) (some rep)
  named : ∀ name desc, find name repos = some desc → Left repos keep depth name →
    ∀ rootName other, rootName ≠ .expressionRoot → desc.reference rootName = some (.named other) →
      ¬ Left repos keep depth other → ∀ final rep,
        finalRootReference repos [] depth other = some final → Merged repos keep depth final rep →
        SameRootSpecials repos depth final rep

/-! ## Representatives -/

variable {repos : Repositories Value} {keep : List Str} {depth : Nat}

variable {name other rep : Str}

theorem IsRepresentative.unique (left : IsRepresentative repos keep depth rep name)
    (right : IsRepresentative repos keep depth other name) : rep = other := by
  have roots : hasRoot repos rep = hasRoot repos other := by
    rw [Bool.eq_iff_iff]
    exact ⟨right.rooted rep left.isRepo left.alike, left.rooted other right.isRepo right.alike⟩
  have kept : rep ∈ keep ↔ other ∈ keep :=
    ⟨right.kept rep left.isRepo left.alike roots,
      left.kept other right.isRepo right.alike roots.symm⟩
  have below := left.first other right.isRepo right.alike roots.symm kept.symm
  have above := right.first rep left.isRepo left.alike roots kept
  have same : representativeKey rep = representativeKey other := le_antisymm below above
  exact congrArg (fun key : Nat ×ₗ Nat ×ₗ Str => (ofLex (ofLex key).2).2) same

theorem IsRepresentative.of_alike (represents : IsRepresentative repos keep depth rep name)
    (alike : Bisimilar (system repos depth) name other) :
    IsRepresentative repos keep depth rep other where
  isRepo := represents.isRepo
  alike := alike.symm.trans represents.alike
  rooted := fun third isRepo same => represents.rooted third isRepo (alike.trans same)
  kept := fun third isRepo same => represents.kept third isRepo (alike.trans same)
  first := fun third isRepo same => represents.first third isRepo (alike.trans same)

theorem IsRepresentative.left {rep name : Str}
    (represents : IsRepresentative repos keep depth rep name) : Left repos keep depth rep := by
  intro other merged
  exact merged.apart ((represents.of_alike represents.alike).unique merged.represents)

theorem preferred_spec {check : Str → Bool} {c : List Str} (nonempty : c ≠ [])
    {candidates : List Str}
    (isPreferred : candidates = if (c.filter check).isEmpty then c else c.filter check) :
    candidates ≠ [] ∧ (∀ name ∈ candidates, name ∈ c) ∧
      (∀ other ∈ c, check other = true → ∀ name ∈ candidates, check name = true) ∧
      ∀ other ∈ c, ∀ name ∈ candidates, check other = check name → other ∈ candidates := by
  subst isPreferred
  split
  · next none =>
    have noOne : ∀ other ∈ c, ¬ check other = true := by
      rw [List.isEmpty_iff, List.filter_eq_nil_iff] at none
      exact none
    exact ⟨nonempty, fun _ member => member, fun other member checked =>
      absurd checked (noOne other member), fun _ member _ _ _ => member⟩
  · next some' =>
    refine ⟨fun empty => some' (List.isEmpty_iff.mpr empty), fun name member =>
      (mem_filter.mp member).1, fun _ _ _ name member => (mem_filter.mp member).2, ?_⟩
    intro other member name inside same
    exact mem_filter.mpr ⟨member, same.trans (mem_filter.mp inside).2⟩

theorem chooseRepresentative_spec {c : List Str} (isClass : IsClass repos depth c) :
    ∃ rep ∈ c, chooseRepresentative repos keep c = some rep ∧
      ∀ name ∈ c, IsRepresentative repos keep depth rep name := by
  unfold chooseRepresentative
  simp only
  generalize isRooted : (if (c.filter (hasRoot repos)).isEmpty then c
    else c.filter (hasRoot repos)) = rooted
  obtain ⟨someRooted, rootedSub, rootedFirst, rootedAll⟩ :=
    preferred_spec isClass.nonempty isRooted.symm
  generalize isKept : (if (rooted.filter fun name => decide (name ∈ keep)).isEmpty then rooted
    else rooted.filter fun name => decide (name ∈ keep)) = candidates
  obtain ⟨someKept, keptSub, keptFirst, keptAll⟩ := preferred_spec someRooted isKept.symm
  have sorted : (candidates.insertionSort fun left right =>
      representativeKey left ≤ representativeKey right).Pairwise
        fun left right => representativeKey left ≤ representativeKey right :=
    List.pairwise_insertionSort _ _
  have perm := List.perm_insertionSort
    (fun left right => representativeKey left ≤ representativeKey right) candidates
  cases list : candidates.insertionSort fun left right =>
      representativeKey left ≤ representativeKey right with
  | nil =>
    rw [list] at perm
    exact absurd perm.symm.eq_nil someKept
  | cons rep rest =>
    rw [list] at sorted perm
    have inKept : rep ∈ candidates := perm.mem_iff.mp mem_cons_self
    have inRooted := keptSub rep inKept
    have inC := rootedSub rep inRooted
    refine ⟨rep, inC, rfl, ?_⟩
    have least : ∀ other ∈ candidates, representativeKey rep ≤ representativeKey other := by
      intro other member
      cases mem_cons.mp (perm.mem_iff.mpr member) with
      | inl same => rw [same]
      | inr later => exact (pairwise_cons.mp sorted).1 other later
    have members : ∀ {name other : Str}, name ∈ c → (find other repos).isSome →
        Bisimilar (system repos depth) name other → other ∈ c := fun inside isRepo alike =>
      (isClass.mem_iff _ inside _).mpr ⟨isRepo, alike⟩
    intro name member
    have here := (isClass.mem_iff name member rep).mp inC
    refine ⟨here.1, here.2, ?_, ?_, ?_⟩
    · intro other isRepo alike hasOne
      exact rootedFirst other (members member isRepo alike) hasOne rep inRooted
    · intro other isRepo alike sameRoot isKept
      have inside := rootedAll other (members member isRepo alike) rep inRooted sameRoot
      exact of_decide_eq_true (keptFirst other inside (decide_eq_true isKept) rep inKept)
    · intro other isRepo alike sameRoot sameKept
      have inside := rootedAll other (members member isRepo alike) rep inRooted sameRoot
      exact least other (keptAll other inside rep inKept (decide_eq_decide.mpr sameKept))

theorem mergeClasses_spec [DecidableEq Value] {classes : List (List Str)}
    (areClasses : ∀ c ∈ classes, IsClass repos depth c) :
    ∃ merging, mergeClasses repos keep classes = some merging ∧
      (∀ name rep, (name, rep) ∈ merging.renames → Merged repos keep depth name rep) ∧
      (∀ c ∈ classes, ∀ name ∈ c, ∀ rep, Merged repos keep depth name rep →
        (name, rep) ∈ merging.renames) ∧
      ∀ name reference, (name, reference) ∈ merging.updatedRepos →
        ∃ desc merged, find name repos = some desc ∧ reference = mergePragma repos desc merged := by
  induction classes with
  | nil =>
    exact ⟨⟨[], []⟩, rfl, fun _ _ impossible => (by cases impossible),
      fun _ impossible => (by cases impossible), fun _ _ impossible => by cases impossible⟩
  | cons c rest step =>
    obtain ⟨merging, ran, sound, complete, updated⟩ := step fun other member =>
      areClasses other (mem_cons_of_mem _ member)
    have isClass := areClasses c mem_cons_self
    obtain ⟨rep, inC, chosen, represents⟩ := @chooseRepresentative_spec _ _ repos keep depth c isClass
    unfold mergeClasses
    by_cases single : c.length = 1
    · rw [if_pos single]
      refine ⟨merging, ran, sound, ?_, updated⟩
      intro other member name inside rep' merged
      cases mem_cons.mp member with
      | inr later => exact complete other later name inside rep' merged
      | inl here =>
        subst here
        obtain ⟨only, same⟩ := List.length_eq_one_iff.mp single
        have inside' := (isClass.mem_iff name inside rep').mpr
          ⟨merged.represents.isRepo, merged.represents.alike⟩
        rw [same, mem_singleton] at inside inside'
        exact absurd (inside.trans inside'.symm) merged.apart
    · rw [if_neg single]
      obtain ⟨desc, found⟩ := isSome_iff_exists.mp (represents rep inC).isRepo
      simp only [chosen, found, ran, bind_eq_bind, bind_some, pure_def]
      refine ⟨_, rfl, ?_, ?_, ?_⟩
      · intro name rep' member
        cases mem_append.mp member with
        | inr later => exact sound name rep' later
        | inl here =>
          obtain ⟨other, inside, same⟩ := mem_map.mp here
          cases same
          have kept := mem_filter.mp inside
          have drops := of_decide_eq_true kept.2
          exact ⟨((isClass.mem_iff name kept.1 name).mp kept.1).1, drops.1, drops.2,
            represents name kept.1⟩
      · intro other member name inside rep' merged
        cases mem_cons.mp member with
        | inr later => exact mem_append_right _ (complete other later name inside rep' merged)
        | inl here =>
          subst here
          have same := merged.represents.unique (represents name inside)
          subst same
          refine mem_append_left _ (mem_map.mpr ⟨name, mem_filter.mpr ⟨inside, ?_⟩, rfl⟩)
          exact decide_eq_true ⟨merged.dropped, merged.apart⟩
      · intro name reference member
        cases mem_cons.mp member with
        | inr later => exact updated name reference later
        | inl here =>
          cases here
          exact ⟨desc, c, found, rfl⟩

/-! ## Renaming -/

/-- What is renamed, and whose roots are updated. -/
structure Renames [DecidableEq Value] (repos : Repositories Value) (keep : List Str) (depth : Nat)
    (merging : Merging Value) : Prop where
  find_iff : ∀ name rep, find name merging.renames = some rep ↔ Merged repos keep depth name rep
  updated : ∀ name reference, find name merging.updatedRepos = some reference →
    ∃ desc merged, find name repos = some desc ∧ reference = mergePragma repos desc merged

/-- A root field and that of the new configuration. -/
inductive Rewritten (repos : Repositories Value) (keep : List Str) (depth : Nat)
    (renames : List (Str × Str)) (rename : Str → Str) :
    RootReference Value → RootReference Value → Prop where
  | root {root root' : Root Value} (location : normal root'.location = normal root.location)
    (pragma : special root' = special root)
    (repo : computedRepo root' = (computedRepo root).map rename) :
    Rewritten repos keep depth renames rename (.root root) (.root root')
  | left {name : Str} (left : Left repos keep depth name) :
    Rewritten repos keep depth renames rename (.named name) (.named name)
  | redirect {name final : Str} (merged : ¬ Left repos keep depth name)
    (ends : finalRootReference repos [] depth name = some final) :
    Rewritten repos keep depth renames rename (.named name) (.named (renamed renames final))

/-- A description and that of the new configuration. -/
structure NewDescription (repos : Repositories Value) (keep : List Str) (depth : Nat)
    (renames : List (Str × Str)) (desc desc' : Repository Value) : Prop where
  repository : Rewritten repos keep depth renames (renamed renames) desc.repository desc'.repository
  targetRoot : Rel (Rewritten repos keep depth renames id) desc.targetRoot desc'.targetRoot
  ruleRoot : Rel (Rewritten repos keep depth renames id) desc.ruleRoot desc'.ruleRoot
  expressionRoot : desc'.expressionRoot = desc.expressionRoot
  files : fileNames desc' = fileNames desc
  bindings : ∀ link, find link (bindingsOf desc') =
    (find link (bindingsOf desc)).map (renamed renames)

section Renaming

variable [DecidableEq Value] {merging : Merging Value}

section

variable (holds : Renames repos keep depth merging)
include holds

theorem Renames.left_iff : Left repos keep depth name ↔ find name merging.renames = none := by
  constructor
  · intro left
    cases found : find name merging.renames with
    | none => rfl
    | some rep => exact absurd ((holds.find_iff name rep).mp found) (left rep)
  · intro none rep merged
    rw [(holds.find_iff name rep).mpr merged] at none
    cases none

theorem Renames.renamed_left (left : Left repos keep depth name) :
    renamed merging.renames name = name := by
  rw [renamed, holds.left_iff.mp left]
  rfl

theorem Renames.renamed_merged (merged : Merged repos keep depth name rep) :
    renamed merging.renames name = rep := by
  rw [renamed, (holds.find_iff name rep).mpr merged]
  rfl

theorem Renames.left_renamed (name : Str) :
    Left repos keep depth (renamed merging.renames name) := by
  cases found : find name merging.renames with
  | none =>
    have left := holds.left_iff.mpr found
    rw [holds.renamed_left left]
    exact left
  | some rep =>
    have merged := (holds.find_iff name rep).mp found
    rw [holds.renamed_merged merged]
    exact merged.represents.left

theorem Renames.isSome_renamed (isRepo : (find name repos).isSome) :
    (find (renamed merging.renames name) repos).isSome := by
  cases found : find name merging.renames with
  | none =>
    rw [holds.renamed_left (holds.left_iff.mpr found)]
    exact isRepo
  | some rep =>
    have merged := (holds.find_iff name rep).mp found
    rw [holds.renamed_merged merged]
    exact merged.represents.isRepo

end

section
omit [DecidableEq Value] [EmptyCollection Value]

theorem finalRootReference_eq (renames : List (Str × Str)) (fuel : Nat) (name : Str) :
    finalRootReference repos renames fuel name =
      (finalRootReference repos [] fuel name).map (renamed renames) := by
  induction fuel generalizing name with
  | zero => rfl
  | succ fuel step =>
    unfold finalRootReference
    cases find name repos with
    | none => rfl
    | some desc =>
      simp only
      cases desc.repository with
      | named other => exact step other
      | root root => rfl

theorem final_of_getRoot {fuel : Nat} {root : Root Value}
    (found : getRoot repos fuel name .repository none = some root) :
    ∃ final desc, finalRootReference repos [] fuel name = some final ∧
      find final repos = some desc ∧ desc.repository = .root root := by
  induction fuel generalizing name with
  | zero => cases found
  | succ fuel step =>
    unfold getRoot at found
    unfold finalRootReference
    cases here : find name repos with
    | none =>
      rw [here] at found
      cases found
    | some desc =>
      rw [here] at found
      simp only [Repository.reference] at found ⊢
      cases reference : desc.repository with
      | named other =>
        rw [reference] at found
        exact step found
      | root own =>
        rw [reference] at found
        cases found
        exact ⟨name, desc, rfl, here, reference⟩

theorem final_mono {fuel more : Nat} (atMost : fuel ≤ more) {final : Str}
    (ends : finalRootReference repos [] fuel name = some final) :
    finalRootReference repos [] more name = some final := by
  induction fuel generalizing more name with
  | zero => cases ends
  | succ fuel step =>
    cases more with
    | zero => omega
    | succ more =>
      unfold finalRootReference at ends ⊢
      cases here : find name repos with
      | none =>
        rw [here] at ends
        cases ends
      | some desc =>
        rw [here] at ends
        simp only at ends ⊢
        cases reference : desc.repository with
        | named other =>
          rw [reference] at ends
          exact step (by omega) ends
        | root own =>
          rw [reference] at ends
          exact ends

end

theorem newRoot_spec (holds : Renames repos keep depth merging) (reference : RootReference Value)
    (chain : ∀ name, reference = .named name → (finalRootReference repos [] depth name).isSome) :
    ∃ reference', newRoot repos merging.renames depth reference = some reference' ∧
      Rewritten repos keep depth merging.renames id reference reference' := by
  cases reference with
  | root root =>
    exact ⟨.root root, rfl, .root rfl rfl (by rw [map_id]; rfl)⟩
  | named name =>
    simp only [newRoot]
    cases found : find name merging.renames with
    | none => exact ⟨.named name, rfl, .left (holds.left_iff.mpr found)⟩
    | some rep =>
      obtain ⟨final, ends⟩ := isSome_iff_exists.mp (chain name rfl)
      rw [finalRootReference_eq merging.renames, ends]
      refine ⟨_, rfl, .redirect (fun left => ?_) ends⟩
      rw [holds.left_iff.mp left] at found
      cases found

section
omit [EmptyCollection Value]

theorem bind_special (pragma : Pragma Value) :
    (if pragma = .empty then none else some pragma).bind (·.special) = pragma.special := by
  split
  · next empty =>
    rw [empty]
    rfl
  · rfl

theorem mergePragma_spec (desc : Repository Value) (merged : List Str) :
    (∀ name, desc.repository = .named name → mergePragma repos desc merged = .named name) ∧
      ∀ root, desc.repository = .root root → ∃ root', mergePragma repos desc merged = .root root' ∧
        root'.location = root.location ∧ special root' = special root := by
  unfold mergePragma
  constructor
  · intro name isNamed
    rw [isNamed]
  · intro root inPlace
    rw [inPlace]
    refine ⟨_, rfl, rfl, ?_⟩
    unfold special
    simp only
    rw [bind_special]
    cases root.pragma with
    | none => rfl
    | some pragma => rfl

end

omit [DecidableEq Value] in
theorem renameComputed_spec (renames : List (Str × Str)) (root : Root Value) :
    ∃ root', renameComputed renames (.root root) = .root root' ∧
      normal root'.location = normal root.location ∧ special root' = special root ∧
      computedRepo root' = (computedRepo root).map (renamed renames) := by
  obtain ⟨location, pragma⟩ := root
  refine ⟨_, rfl, ?_, rfl, ?_⟩
  · cases location <;> rfl
  · cases location <;> rfl

theorem newDescription_spec (holds : Renames repos keep depth merging)
    (regular : Regular repos depth) {desc : Repository Value}
    (found : find name repos = some desc) :
    ∃ desc', newDescription repos merging depth name desc = some desc' ∧
      NewDescription repos keep depth merging.renames desc desc' := by
  have chain : ∀ rootName other, desc.reference rootName = some (.named other) →
      (finalRootReference repos [] depth other).isSome := by
    intro rootName other isNamed
    have isSome : (find name repos).isSome := by
      rw [found]
      rfl
    obtain ⟨root, isRoot⟩ := isSome_iff_exists.mp (regular.resolves name isSome rootName)
    have reached : ∃ fuel, fuel ≤ depth ∧ getRoot repos fuel other .repository none = some root := by
      cases depth with
      | zero =>
        cases rootName <;> cases isRoot
      | succ fuel =>
        refine ⟨fuel, Nat.le_succ _, ?_⟩
        cases rootName <;>
          simp only [resolved, getRoot, found, isNamed] at isRoot <;> exact isRoot
    obtain ⟨fuel, atMost, isRoot⟩ := reached
    obtain ⟨final, _, ends, _⟩ := final_of_getRoot isRoot
    rw [final_mono atMost ends]
    rfl
  -- the root may have got a merged pragma before
  have first : ∃ reference, (find name merging.updatedRepos).getD desc.repository = reference ∧
      (∀ other, desc.repository = .named other → reference = .named other) ∧
      ∀ root, desc.repository = .root root → ∃ root', reference = .root root' ∧
        root'.location = root.location ∧ special root' = special root := by
    cases updated : find name merging.updatedRepos with
    | none =>
      exact ⟨_, rfl, fun other isNamed => isNamed, fun root inPlace => ⟨root, inPlace, rfl, rfl⟩⟩
    | some reference =>
      obtain ⟨own, merged, same, rfl⟩ := holds.updated name reference updated
      rw [found] at same
      cases same
      exact ⟨_, rfl, mergePragma_spec desc merged⟩
  obtain ⟨reference, isReference, keepsName, keepsRoot⟩ := first
  have repository : ∃ reference', newRoot repos merging.renames depth reference = some reference' ∧
      Rewritten repos keep depth merging.renames (renamed merging.renames) desc.repository
        (renameComputed merging.renames reference') := by
    cases own : desc.repository with
    | named other =>
      obtain ⟨reference', ran, rewritten⟩ := newRoot_spec holds (.named other) (by
        intro same isSame
        cases isSame
        exact chain .repository other (congrArg some own))
      rw [keepsName other own]
      refine ⟨reference', ran, ?_⟩
      cases rewritten with
      | left left => exact .left left
      | redirect merged ends => exact .redirect merged ends
    | root root =>
      obtain ⟨root', isRoot, location, pragma⟩ := keepsRoot root own
      rw [isRoot]
      refine ⟨.root root', rfl, ?_⟩
      obtain ⟨last, isLast, location', pragma', repo⟩ := renameComputed_spec merging.renames root'
      rw [isLast]
      refine .root (location'.trans (congrArg normal location)) (pragma'.trans pragma) ?_
      rw [repo]
      unfold computedRepo
      rw [location]
  have optional : ∀ rootName (reference : Option (RootReference Value)),
      desc.reference rootName = reference →
      ∃ reference', reference.mapM (newRoot repos merging.renames depth) = some reference' ∧
        Rel (Rewritten repos keep depth merging.renames id) reference reference' := by
    intro rootName reference same
    cases reference with
    | none => exact ⟨none, rfl, .none⟩
    | some reference =>
      obtain ⟨reference', ran, rewritten⟩ := newRoot_spec holds reference fun other isNamed =>
        chain rootName other (isNamed ▸ same)
      refine ⟨some reference', ?_, .some rewritten⟩
      simp only [Option.mapM_some, ran]
      rfl
  obtain ⟨newRepository, ranRepository, rewritten⟩ := repository
  obtain ⟨newTarget, ranTarget, targetRoot⟩ := optional .targetRoot desc.targetRoot rfl
  obtain ⟨newRule, ranRule, ruleRoot⟩ := optional .ruleRoot desc.ruleRoot rfl
  unfold newDescription
  simp only [isReference, ranRepository, ranTarget, ranRule, bind_eq_bind, bind_some, pure_def]
  refine ⟨_, rfl, rewritten, targetRoot, ruleRoot, rfl, rfl, ?_⟩
  intro link
  unfold bindingsOf
  cases desc.bindings with
  | none => rfl
  | some bindings => exact find_mapValues _ link bindings

omit [EmptyCollection Value] [DecidableEq Value] in
theorem newRepositories_spec (rest : Repositories Value)
    (all : ∀ item ∈ rest, find item.1 merging.renames = none →
      (newDescription repos merging depth item.1 item.2).isSome) :
    ∃ new, newRepositories repos merging depth rest = some new ∧ ∀ name, find name new =
        if (find name merging.renames).isSome then none
        else (find name rest).bind (newDescription repos merging depth name) := by
  induction rest with
  | nil =>
    refine ⟨[], rfl, fun name => ?_⟩
    simp
  | cons item rest step =>
    obtain ⟨new, ran, finds⟩ := step fun other member =>
      all other (mem_cons_of_mem _ member)
    obtain ⟨first, desc⟩ := item
    unfold newRepositories
    cases here : find first merging.renames with
    | some rep =>
      refine ⟨new, ran, fun name => ?_⟩
      rw [finds, find_cons]
      by_cases same : first = name
      · subst same
        simp [here]
      · rw [if_neg same]
    | none =>
      obtain ⟨desc', made⟩ := isSome_iff_exists.mp (all (first, desc) mem_cons_self here)
      simp only at made
      simp only [made, ran, bind_eq_bind, bind_some, pure_def]
      refine ⟨_, rfl, fun name => ?_⟩
      rw [find_cons, find_cons]
      by_cases same : first = name
      · subst same
        simp [here, made]
      · rw [if_neg same, if_neg same]
        exact finds name

end Renaming

theorem NewDescription.later {renames : List (Str × Str)} {desc desc' : Repository Value}
    (holds : NewDescription repos keep depth renames desc desc')
    (harmless : Harmless repos keep depth) (left : Left repos keep depth name)
    (found : find name repos = some desc) (rootName : RootName) (notFirst : rootName ≠ .repository) :
    Rel (Rewritten repos keep depth renames id) (desc.reference rootName)
      (desc'.reference rootName) := by
  cases rootName with
  | repository => exact absurd rfl notFirst
  | targetRoot => exact holds.targetRoot
  | ruleRoot => exact holds.ruleRoot
  | expressionRoot =>
    simp only [Repository.reference, holds.expressionRoot]
    cases own : desc.expressionRoot with
    | none => exact .none
    | some reference =>
      cases reference with
      | root inPlace => exact .some (.root rfl rfl (by rw [map_id]; rfl))
      | named other =>
        exact .some (.left (harmless.expressionRoot name desc found left other own))

/-! ## Special pragmas -/

/-- Repositories of one configuration denote the same. -/
abbrev Equivalent (repos : Repositories Value) (depth : Nat) (left right : Str) : Prop :=
  Bisimilar (meaning Value depth) (repos, left) (repos, right)

theorem label_of_compared {left right : Option (Root Value)}
    (same : left.map compared = right.map compared)
    (specials : left.map special = right.map special) :
    left.map (fun root => (normal root.location, special root)) =
      right.map fun root => (normal root.location, special root) := by
  cases left with
  | none =>
    cases right with
    | none => rfl
    | some root => cases same
  | some root =>
    cases right with
    | none => cases same
    | some other =>
      have locations : normal root.location = normal other.location := congrArg fst (some.inj same)
      have pragmas : special root = special other := some.inj specials
      rw [map_some, map_some, locations, pragmas]

theorem equivalent_of_alike {left right : Str} (alike : Bisimilar (system repos depth) left right)
    (same : SameSpecials repos depth (some left) (some right)) :
    Equivalent repos depth left right := by
  refine ⟨fun first second => ∃ left right, first = (repos, left) ∧ second = (repos, right) ∧
    Bisimilar (system repos depth) left right ∧
    SameSpecials repos depth (some left) (some right), ?_, left, right, rfl, rfl, alike, same⟩
  rintro _ _ ⟨left, right, rfl, rfl, alike, same⟩
  have labels := alike.label
  have pragmas : specials repos depth left = specials repos depth right := some.inj (same [])
  have files : (find left repos).map fileNames = (find right repos).map fileNames :=
    congrArg fst labels
  refine ⟨Prod.ext files (funext fun rootName => ?_), fun link => ?_⟩
  · exact label_of_compared (congrFun (congrArg snd labels) rootName)
      (congrFun pragmas rootName)
  · have next := (bisimilar_isBisimulation _ left right alike).2 link
    have later : SameSpecials repos depth (follow repos depth left link)
        (follow repos depth right link) := fun path => same (link :: path)
    change Rel _ (follow repos depth left link) (follow repos depth right link) at next
    change Rel _ ((follow repos depth left link).map _)
      ((follow repos depth right link).map _)
    generalize follow repos depth left link = leftNext at next later
    generalize follow repos depth right link = rightNext at next later
    cases next with
    | none => exact .none
    | some holds => exact .some ⟨_, _, rfl, rfl, holds, later⟩

theorem sameSpecials_of_related {left right : Option Str}
    (related : Rel (Equivalent repos depth) left right) : SameSpecials repos depth left right := by
  intro path
  induction path generalizing left right with
  | nil =>
    cases related with
    | none => rfl
    | @some left right alike =>
      refine congrArg some (funext fun rootName => ?_)
      have labels := congrFun (congrArg snd alike.label) rootName
      have pragmas := congrArg (Option.map snd) labels
      simp only [meaning, Option.map_map] at pragmas
      exact pragmas
  | cons link rest step =>
    refine step ?_
    cases related with
    | none => exact .none
    | @some left right alike =>
      have next := (bisimilar_isBisimulation _ _ _ alike).2 link
      change Rel _ ((follow repos depth left link).map _)
        ((follow repos depth right link).map _) at next
      change Rel _ (follow repos depth left link) (follow repos depth right link)
      generalize follow repos depth left link = leftNext at next
      generalize follow repos depth right link = rightNext at next
      cases leftNext with
      | none =>
        cases rightNext with
        | none => exact .none
        | some _ => cases next
      | some _ =>
        cases rightNext with
        | none => cases next
        | some _ =>
          cases next with
          | some holds => exact .some holds

/-! ## Well-formed configurations -/

section
omit [EmptyCollection Value]

theorem WellFormed.getRoot_isSome (closed : ∀ name desc, find name repos = some desc →
      ∀ other, Mentions desc other → (find other repos).isSome)
    {rank : Str → Nat} (down : ∀ name desc other, find name repos = some desc →
      desc.repository = .named other → rank other < rank name)
    {fuel : Nat} (isRepo : (find name repos).isSome) (enough : rank name < fuel) :
    (getRoot repos fuel name .repository none).isSome := by
  induction fuel generalizing name with
  | zero => omega
  | succ fuel step =>
    obtain ⟨desc, found⟩ := isSome_iff_exists.mp isRepo
    unfold getRoot
    rw [found]
    simp only [Repository.reference]
    cases own : desc.repository with
    | root root => rfl
    | named other =>
      have lower := down name desc other found own
      exact step (closed name desc found other (.named .repository (congrArg some own)))
        (by omega)

theorem WellFormed.regular (wellFormed : WellFormed repos) :
    ∃ enough, ∀ depth, enough ≤ depth → Regular repos depth := by
  obtain ⟨rank, down⟩ := wellFormed.acyclic
  have bounded : ∃ bound, ∀ name, (find name repos).isSome → rank name < bound := by
    refine ⟨((repos.map (·.1)).map rank).sum + 1, fun name isRepo => ?_⟩
    have member : rank name ∈ (repos.map (·.1)).map rank := mem_map_of_mem (mem_keys.mpr isRepo)
    exact Nat.lt_succ_of_le (List.single_le_sum (fun _ _ => Nat.zero_le _) _ member)
  obtain ⟨bound, below⟩ := bounded
  refine ⟨bound + 1, fun depth atLeast => ?_⟩
  obtain ⟨fuel, rfl⟩ : ∃ fuel, depth = fuel + 1 := ⟨depth - 1, by omega⟩
  have first : ∀ name, (find name repos).isSome →
      (getRoot repos (fuel + 1) name .repository none).isSome := fun name isRepo =>
    WellFormed.getRoot_isSome wellFormed.closed down isRepo (by
      have := below name isRepo
      omega)
  have next : ∀ name, (find name repos).isSome → ∀ rootName (before : Option (Root Value)),
      before.isSome → (getRoot repos (fuel + 1) name rootName before).isSome := by
    intro name isRepo rootName before isSome
    obtain ⟨desc, found⟩ := isSome_iff_exists.mp isRepo
    unfold getRoot
    rw [found]
    simp only
    cases own : desc.reference rootName with
    | none => exact isSome
    | some reference =>
      cases reference with
      | root root => rfl
      | named other =>
        have isOther := wellFormed.closed name desc found other (.named rootName own)
        have low := below other isOther
        exact WellFormed.getRoot_isSome wellFormed.closed down isOther (by omega)
  have resolves : ∀ name, (find name repos).isSome → ∀ rootName,
      (resolved repos (fuel + 1) name rootName).isSome := by
    intro name isRepo rootName
    have target := next name isRepo .targetRoot _ (first name isRepo)
    have rule := next name isRepo .ruleRoot _ target
    cases rootName with
    | repository => exact first name isRepo
    | targetRoot => exact target
    | ruleRoot => exact rule
    | expressionRoot => exact next name isRepo .expressionRoot _ rule
  have mentioned : ∀ fuel' name root, getRoot repos fuel' name .repository none = some root →
      ∀ other, computedRepo root = some other → (find other repos).isSome := by
    intro fuel' name root isRoot other computed
    obtain ⟨final, desc, _, found, own⟩ := final_of_getRoot isRoot
    exact wellFormed.closed final desc found other
      (.computed .repository root (congrArg some own) computed)
  have leads : ∀ name rootName (before : Option (Root Value)),
      (∀ root, before = some root → ∀ other, computedRepo root = some other →
        (find other repos).isSome) →
      ∀ root, getRoot repos (fuel + 1) name rootName before = some root →
        ∀ other, computedRepo root = some other → (find other repos).isSome := by
    intro name rootName before holds root isRoot other computed
    unfold getRoot at isRoot
    cases found : find name repos with
    | none =>
      rw [found] at isRoot
      cases isRoot
    | some desc =>
      rw [found] at isRoot
      simp only at isRoot
      cases own : desc.reference rootName with
      | none =>
        rw [own] at isRoot
        exact holds root isRoot other computed
      | some reference =>
        rw [own] at isRoot
        cases reference with
        | root inPlace =>
          cases isRoot
          exact wellFormed.closed name desc found other (.computed rootName root own computed)
        | named via => exact mentioned fuel via root isRoot other computed
  refine ⟨resolves, ?_⟩
  intro name link other follows
  cases link with
  | binding bound =>
    rw [follow] at follows
    obtain ⟨desc, found, isBound⟩ := bind_eq_some_iff.mp follows
    exact wellFormed.closed name desc found other (.binding bound isBound)
  | computed rootName =>
    rw [follow] at follows
    obtain ⟨root, isRoot, computed⟩ := bind_eq_some_iff.mp follows
    have repository := fun root isRoot => mentioned (fuel + 1) name root isRoot
    have targetRoot := leads name .targetRoot _ repository
    have ruleRoot := leads name .ruleRoot _ targetRoot
    cases rootName with
    | repository => exact repository root isRoot other computed
    | targetRoot => exact targetRoot root isRoot other computed
    | ruleRoot => exact ruleRoot root isRoot other computed
    | expressionRoot => exact leads name .expressionRoot _ ruleRoot root isRoot other computed

end

end Denotation

end Jst.Verif.RenamedRepos
