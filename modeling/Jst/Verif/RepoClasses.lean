import Jst.Verif.Deduplication
/-!
# The classes of repositories

The classes that `bisimilar_repos` returns are a partition of all names. Two names are in one class
if and only if their repositories are bisimilar, and the classes are the same under other names.
-/
namespace Jst.Verif.RepoClasses

open SortedMap Tools Bisimulation BisimilarRepos RenamedRepos

variable {Value : Type}

/-! ## Other names -/

section Names

variable (rename : Str → Str)

/-- A root under other names. -/
def renameRoot (root : Root Value) : Root Value :=
  { root with location :=
    match root.location with
    | .computed repo target config => .computed (rename repo) target config
    | .treeStructure repo => .treeStructure (rename repo)
    | location => location }

/-- The value of a root field under other names. -/
def renameReference : RootReference Value → RootReference Value
  | .named name => .named (rename name)
  | .root root => .root (renameRoot rename root)

/-- A description under other names; bindings keep theirs. -/
def renameRepository (desc : Repository Value) : Repository Value :=
  { desc with
    repository := renameReference rename desc.repository
    targetRoot := desc.targetRoot.map (renameReference rename)
    ruleRoot := desc.ruleRoot.map (renameReference rename)
    expressionRoot := desc.expressionRoot.map (renameReference rename)
    bindings := desc.bindings.map fun bindings =>
      bindings.map fun item => (item.1, rename item.2) }

/-- The repositories under other names. -/
def renameRepos (repos : Repositories Value) : Repositories Value :=
  repos.map fun item => (rename item.1, renameRepository rename item.2)

variable {rename} {repos : Repositories Value} {depth : Nat}

theorem reference_rename (desc : Repository Value) (rootName : RootName) :
    (renameRepository rename desc).reference rootName =
      (desc.reference rootName).map (renameReference rename) := by
  cases rootName <;> rfl

theorem computedRepo_rename (root : Root Value) :
    computedRepo (renameRoot rename root) = (computedRepo root).map rename := by
  obtain ⟨location, _⟩ := root
  cases location <;> rfl

theorem compared_rename [EmptyCollection Value] (root : Root Value) :
    compared (renameRoot rename root) = compared root := by
  obtain ⟨location, _⟩ := root
  cases location <;> rfl

theorem bindings_rename (desc : Repository Value) : bindingsOf (renameRepository rename desc) =
      (bindingsOf desc).map fun item => (item.1, rename item.2) := by
  unfold bindingsOf renameRepository
  cases desc.bindings <;> rfl

theorem exists_of_rename {other : Str} (isRepo : (find other (renameRepos rename repos)).isSome) :
    ∃ name, rename name = other ∧ (find name repos).isSome := by
  rw [← mem_keys] at isRepo
  unfold renameRepos at isRepo
  rw [map_map] at isRepo
  obtain ⟨item, member, rfl⟩ := mem_map.mp isRepo
  exact ⟨item.1, rfl, mem_keys.mp (mem_map_of_mem member)⟩

theorem isRepo_of_follow {name next : Str} {link : Link}
    (leads : follow repos depth name link = some next) : (find name repos).isSome := by
  cases found : find name repos with
  | some _ => rfl
  | none =>
    have noRoot : ∀ rootName default, getRoot repos depth name rootName default = none := by
      intro rootName default
      cases depth with
      | zero => rfl
      | succ depth =>
        unfold getRoot
        rw [found]
    unfold follow at leads
    cases link with
    | binding link => simp [found] at leads
    | computed rootName => cases rootName <;> simp [resolved, noRoot] at leads

variable (injective : Function.Injective rename)
include injective

theorem find_rename (name : Str) : find (rename name) (renameRepos rename repos) =
      (find name repos).map (renameRepository rename) := by
  induction repos with
  | nil => rfl
  | cons item rest step =>
    unfold renameRepos at step ⊢
    rw [map_cons, find_cons]
    obtain ⟨key, desc⟩ := item
    rw [find_cons]
    by_cases same : key = name
    · rw [if_pos (congrArg rename same), if_pos same]
      rfl
    · rw [if_neg (injective.ne same), if_neg same]
      exact step

theorem getRoot_rename (name : Str) (rootName : RootName) (default : Option (Root Value)) :
    getRoot (renameRepos rename repos) depth (rename name) rootName
        (default.map (renameRoot rename)) =
      (getRoot repos depth name rootName default).map (renameRoot rename) := by
  induction depth generalizing name rootName default with
  | zero => rfl
  | succ depth step =>
    unfold getRoot
    rw [find_rename injective]
    cases find name repos with
    | none => rfl
    | some desc =>
      simp only [map_some, reference_rename]
      cases desc.reference rootName with
      | none => rfl
      | some reference =>
        cases reference with
        | named other => exact step other .repository none
        | root root => rfl

theorem resolved_rename (name : Str) (rootName : RootName) :
    resolved (renameRepos rename repos) depth (rename name) rootName =
      (resolved repos depth name rootName).map (renameRoot rename) := by
  have first := @getRoot_rename _ rename repos depth injective name .repository none
  rw [Option.map_none] at first
  unfold resolved
  cases rootName <;> simp only [first, getRoot_rename injective]

theorem follow_rename (name : Str) (link : Link) :
    follow (renameRepos rename repos) depth (rename name) link =
      (follow repos depth name link).map rename := by
  unfold follow
  cases link with
  | binding link =>
    simp only [find_rename injective]
    cases find name repos with
    | none => rfl
    | some desc =>
      simp only [map_some, bind_some, bindings_rename]
      exact find_mapValues rename link (bindingsOf desc)
  | computed rootName =>
    simp only [resolved_rename injective]
    cases resolved repos depth name rootName with
    | none => rfl
    | some root => exact computedRepo_rename root

theorem bisimilar_rename [EmptyCollection Value] (x y : Str) :
    Bisimilar (system (renameRepos rename repos) depth) (rename x) (rename y) ↔
      Bisimilar (system repos depth) x y := by
  refine bisimilar_map (fun name => ?_) fun name link => follow_rename injective name link
  change (_, _) = (_, _)
  rw [find_rename injective, Option.map_map]
  congr 1
  funext rootName
  rw [resolved_rename injective, Option.map_map]
  cases resolved repos depth name rootName with
  | none => rfl
  | some root => exact congrArg some (compared_rename root)

theorem regular_rename (regular : Regular repos depth) :
    Regular (renameRepos rename repos) depth := by
  constructor
  · intro other isRepo rootName
    obtain ⟨name, rfl, inside⟩ := exists_of_rename isRepo
    rw [resolved_rename injective, Option.isSome_map]
    exact regular.resolves name inside rootName
  · intro other link target leads
    obtain ⟨name, rfl, -⟩ := exists_of_rename (isRepo_of_follow leads)
    rw [follow_rename injective, map_eq_some_iff] at leads
    obtain ⟨next, leads, rfl⟩ := leads
    rw [find_rename injective, Option.isSome_map]
    exact regular.follows name link next leads

end Names

/-! ## A partition -/

/-- Two names are in one class. -/
def SameClass (classes : List (List Str)) (x y : Str) : Prop := ∃ c ∈ classes, x ∈ c ∧ y ∈ c

/-- Every name is in exactly one class, once, and no class is empty. -/
structure IsPartition (repos : Repositories Value) (classes : List (List Str)) : Prop where
  nonempty : ∀ c ∈ classes, c ≠ []
  nodup : ∀ c ∈ classes, c.Nodup
  disjoint : classes.Pairwise List.Disjoint
  names : ∀ name, (∃ c ∈ classes, name ∈ c) ↔ (find name repos).isSome

theorem exists_fresh {bisim : Bisim} {remaining done : List Str} :
    ∀ c ∈ collectClasses bisim remaining done, ∃ name ∈ c, name ∈ remaining ∧ name ∉ done := by
  induction remaining generalizing done with
  | nil => exact fun _ impossible => by cases impossible
  | cons name earlier step =>
    intro c member
    unfold collectClasses at member
    by_cases known : name ∈ done
    · rw [if_pos known] at member
      obtain ⟨other, inC, remains, fresh⟩ := step c member
      exact ⟨other, inC, mem_cons_of_mem _ remains, fresh⟩
    · rw [if_neg known] at member
      cases mem_cons.mp member with
      | inl here => exact ⟨name, here ▸ mem_cons_self, mem_cons_self, known⟩
      | inr later =>
        obtain ⟨other, inC, remains, fresh⟩ := step c later
        exact ⟨other, inC, mem_cons_of_mem _ remains,
          fun inDone => fresh (mem_append_left _ inDone)⟩

section Classes

variable [EmptyCollection Value] {repos : Repositories Value} {depth : Nat}

theorem collectClasses_disjoint {bisim : Bisim} {remaining done : List Str}
    (sorted : remaining.Pairwise (· > ·))
    (areClasses : ∀ c ∈ collectClasses bisim remaining done, IsClass repos depth c) :
    (collectClasses bisim remaining done).Pairwise List.Disjoint := by
  induction remaining generalizing done with
  | nil => exact .nil
  | cons name earlier step =>
    obtain ⟨above, sortedEarlier⟩ := pairwise_cons.mp sorted
    unfold collectClasses at areClasses ⊢
    by_cases known : name ∈ done
    · rw [if_pos known] at areClasses ⊢
      exact step sortedEarlier areClasses
    · rw [if_neg known] at areClasses ⊢
      refine pairwise_cons.mpr ⟨fun c later x inFirst inC => ?_,
        step sortedEarlier (forall_mem_cons.mp areClasses).2⟩
      -- what is new in the later class belongs to the first one, too
      obtain ⟨other, inside, remains, fresh⟩ := exists_fresh c later
      have isFirst := areClasses _ mem_cons_self
      have isLater := areClasses c (mem_cons_of_mem _ later)
      have inFirst' := (isFirst.mem_iff x inFirst other).mpr ((isLater.mem_iff x inC other).mp inside)
      cases mem_cons.mp inFirst' with
      | inl same => exact absurd (above other remains) (same ▸ lt_irrefl _)
      | inr inOthers => exact fresh (mem_append_right _ inOthers)

variable [DecidableEq Value]

theorem bisimilarRepos_classes (nodup : (repos.map (·.1)).Nodup) (regular : Regular repos depth)
    (enough : (orderedPairs [] (sortedNames repos)).length ≤ depth) :
    ∃ classes, bisimilarRepos repos depth = some classes ∧ IsPartition repos classes ∧
      ∀ x y, SameClass classes x y ↔ (find x repos).isSome ∧ (find y repos).isSome ∧
        Bisimilar (system repos depth) x y := by
  obtain ⟨classes, ran, areClasses, covered⟩ := bisimilarRepos_spec nodup regular enough
  have isRepo : ∀ c ∈ classes, ∀ name ∈ c, (find name repos).isSome := fun c isClass name member =>
    (((areClasses c isClass).mem_iff name member name).mp member).1
  refine ⟨classes, ran, ⟨fun c isClass => (areClasses c isClass).nonempty,
    fun c isClass => (areClasses c isClass).nodup, ?_, fun name => ?_⟩, fun x y => ?_⟩
  · unfold bisimilarRepos at ran
    obtain ⟨bisim, -, collected⟩ := bind_eq_some_iff.mp ran
    have same := some.inj collected
    rw [← same] at areClasses ⊢
    exact collectClasses_disjoint (List.pairwise_reverse.mpr (sortedNames_pairwise nodup)) areClasses
  · exact ⟨fun ⟨c, isClass, member⟩ => isRepo c isClass name member, covered name⟩
  · constructor
    · rintro ⟨c, isClass, inX, inY⟩
      exact ⟨isRepo c isClass x inX, ((areClasses c isClass).mem_iff x inX y).mp inY⟩
    · rintro ⟨isRepoX, alike⟩
      obtain ⟨c, isClass, inX⟩ := covered x isRepoX
      exact ⟨c, isClass, inX, ((areClasses c isClass).mem_iff x inX y).mpr alike⟩

omit [EmptyCollection Value] [DecidableEq Value] in
theorem length_orderedPairs {earlier earlier' names names' : List Str}
    (same : earlier.length = earlier'.length) (sameNames : names.length = names'.length) :
    (orderedPairs earlier names).length = (orderedPairs earlier' names').length := by
  induction names generalizing earlier earlier' names' with
  | nil =>
    cases names' with
    | nil => rfl
    | cons _ _ => cases sameNames
  | cons _ _ step =>
    cases names' with
    | nil => cases sameNames
    | cons _ _ =>
      simp only [orderedPairs, length_append, length_map]
      exact congrArg₂ (· + ·) same (step (by simp [same]) (Nat.succ.inj sameNames))

/-- The classes that `bisimilar_repos` returns are a partition of all names, they are those of the
greatest bisimulation, and they are the same under other names. -/
theorem bisimilarRepos_partition (config : Configuration Value)
    (wellFormed : WellFormed config.repositories) :
    ∃ enough, ∀ depth, enough ≤ depth → ∃ classes,
      bisimilarRepos config.repositories depth = some classes ∧
      IsPartition config.repositories classes ∧
      (∀ x y, SameClass classes x y ↔ (find x config.repositories).isSome ∧
        (find y config.repositories).isSome ∧
        Bisimilar (system config.repositories depth) x y) ∧
      ∀ rename : Str → Str, Function.Injective rename → ∃ renamedClasses,
        bisimilarRepos (renameRepos rename config.repositories) depth = some renamedClasses ∧
        IsPartition (renameRepos rename config.repositories) renamedClasses ∧
        ∀ x y, SameClass renamedClasses (rename x) (rename y) ↔ SameClass classes x y := by
  obtain ⟨enough, regularFrom⟩ := wellFormed.regular
  refine ⟨max enough (orderedPairs [] (sortedNames config.repositories)).length,
    fun depth atLeast => ?_⟩
  have regular := regularFrom depth (le_trans (le_max_left _ _) atLeast)
  have pairs := le_trans (le_max_right _ _) atLeast
  obtain ⟨classes, ran, isPartition, same⟩ := bisimilarRepos_classes config.nodup regular pairs
  refine ⟨classes, ran, isPartition, same, fun rename injective => ?_⟩
  have nodup : ((renameRepos rename config.repositories).map (·.1)).Nodup := by
    have names : (renameRepos rename config.repositories).map (·.1) =
        (config.repositories.map (·.1)).map rename := by
      unfold renameRepos
      rw [map_map, map_map]
      rfl
    rw [names]
    exact config.nodup.map injective
  have asMany : (orderedPairs [] (sortedNames (renameRepos rename config.repositories))).length ≤
      depth := by
    rw [length_orderedPairs rfl (by simp [sortedNames, renameRepos] :
      _ = (sortedNames config.repositories).length)]
    exact pairs
  obtain ⟨renamedClasses, ranRenamed, isPartition', same'⟩ :=
    bisimilarRepos_classes nodup (regular_rename injective regular) asMany
  refine ⟨renamedClasses, ranRenamed, isPartition', fun x y => ?_⟩
  rw [same', same, find_rename injective, find_rename injective, Option.isSome_map,
    Option.isSome_map, bisimilar_rename injective]

end Classes

theorem twoNames_partition : ∃ depth classes,
    bisimilarRepos Deduplication.twoNames.repositories depth = some classes ∧
      IsPartition Deduplication.twoNames.repositories classes := by
  obtain ⟨enough, ran⟩ := bisimilarRepos_partition Deduplication.twoNames
    (Deduplication.wellFormed_of_check (by decide) (by decide))
  obtain ⟨classes, isSome, isPartition, -⟩ := ran enough le_rfl
  exact ⟨enough, classes, isSome, isPartition⟩

end Jst.Verif.RepoClasses
