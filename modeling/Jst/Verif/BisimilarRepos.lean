import Jst.Tools.Deduplicate
import Jst.Verif.Minimization
/-!
# Repositories that cannot be told apart

`bisimilar_repos` marks pairs in the way the minimiser of automata does, for the system whose states
are the repositories and whose steps lead to bindings and to the repositories of computed roots.
Pairs that are not marked in the end are the bisimilar ones, and the classes are those of
bisimilarity.
-/
namespace Jst.Verif.BisimilarRepos

open SortedMap Tools Bisimulation DfaMinimizer Minimization

/-! ## Marking pairs -/

section Marks

variable {Symbol Label : Type} {system : System Str Symbol Label} {keys : List (Str × Str)}

/-- The table of pairs, with the positions of the pairs that wait. -/
def toPairs (keys : List (Str × Str)) (bisim : Bisim) : StatePairs where
  keys := keys
  value := fun key => ⟨(bisim key).differentIf.map fun pair => position pair.1 pair.2,
    (bisim key).different⟩

theorem position_eq (nameA nameB : Str) : position nameA nameB = statePairKey nameA nameB := rfl

theorem toPairs_mark (bisim : Bisim) (key : Str × Str) :
    toPairs keys (update bisim key { bisim key with different := true }) =
      mark (toPairs keys bisim) key := by
  unfold mark StatePairs.set toPairs
  congr 1
  funext other
  by_cases same : other = key
  · subst same
    simp
  · simp [same]

theorem toPairs_register (bisim : Bisim) (nameA nameB depA depB : Str) :
    toPairs keys (registerDependency bisim nameA nameB depA depB) =
      (toPairs keys bisim).set (position nameA nameB)
        { (toPairs keys bisim).value (position nameA nameB) with
          parents := ((toPairs keys bisim).value (position nameA nameB)).parents ++
            [position depA depB] } := by
  unfold registerDependency StatePairs.set toPairs
  congr 1
  funext other
  by_cases same : other = position nameA nameB
  · subst same
    simp
  · simp [same]

theorem markAsDifferent_eq (depth : Nat) {bisim : Bisim} {nameA nameB : Str}
    (fresh : ¬ isDifferent bisim nameA nameB = true) :
    (markAsDifferent depth bisim nameA nameB).map (toPairs keys) =
      markPairValue depth (toPairs keys bisim) (position nameA nameB) := by
  induction depth generalizing bisim nameA nameB with
  | zero =>
    rw [markAsDifferent, if_neg fresh]
    rfl
  | succ depth step =>
    rw [markAsDifferent, if_neg fresh, markPairValue]
    have loop : ∀ (waiting : List (Str × Str)) (bisim : Bisim),
        (waiting.foldlM (fun bisim pair => markAsDifferent depth bisim pair.1 pair.2)
          bisim).map (toPairs keys) =
        (waiting.map fun pair => position pair.1 pair.2).foldlM
          (fun pairs parent => if (pairs.value parent).marked then some pairs
            else markPairValue depth pairs parent) (toPairs keys bisim) := by
      intro waiting
      induction waiting with
      | nil => exact fun _ => rfl
      | cons pair rest later =>
        intro bisim
        rw [foldlM_cons, map_cons, foldlM_cons]
        by_cases marked : isDifferent bisim pair.1 pair.2 = true
        · have here : markAsDifferent depth bisim pair.1 pair.2 = some bisim := by
            unfold markAsDifferent
            exact if_pos marked
          have there : ((toPairs keys bisim).value (position pair.1 pair.2)).marked = true := marked
          rw [here, if_pos there]
          exact later bisim
        · have there : ¬ ((toPairs keys bisim).value (position pair.1 pair.2)).marked = true :=
            marked
          rw [if_neg there, ← step marked]
          cases markAsDifferent depth bisim pair.1 pair.2 with
          | none => rfl
          | some next => exact later next
    have ran := loop (bisim (position nameA nameB)).differentIf (update bisim
      (position nameA nameB) { bisim (position nameA nameB) with different := true })
    rw [toPairs_mark] at ran
    exact ran

/-- The repositories of a pair are not bisimilar. -/
def Differ (system : System Str Symbol Label) (key : Str × Str) : Prop :=
  ¬ Bisimilar system key.1 key.2

theorem differ_position {left right : Str} :
    Differ system (position left right) ↔ ¬ Bisimilar system left right := by
  cases statePairKey_cases left right with
  | inl same => rw [position_eq, same, Differ]
  | inr swapped =>
    rw [position_eq, swapped, Differ]
    exact not_congr ⟨Bisimilar.symm, Bisimilar.symm⟩

/-- What holds of the table of pairs at any time. -/
structure Sound (system : System Str Symbol Label) (keys : List (Str × Str)) (bisim : Bisim) :
    Prop where
  differ : ∀ {key}, Marked (toPairs keys bisim) key → Differ system key
  parents : ∀ {key parent}, parent ∈ ((toPairs keys bisim).value key).parents →
    parent ∈ keys ∧ (Differ system key → Differ system parent)
  closed : ∀ {key}, Marked (toPairs keys bisim) key →
    ∀ parent ∈ ((toPairs keys bisim).value key).parents, Marked (toPairs keys bisim) parent

/-- A table has grown. -/
abbrev Grown (keys : List (Str × Str)) (bisim next : Bisim) : Prop :=
  Grows (toPairs keys bisim) (toPairs keys next)

theorem Sound.mark {bisim : Bisim} (sound : Sound system keys bisim) {depth : Nat}
    (enough : keys.length ≤ depth) {nameA nameB : Str} (member : position nameA nameB ∈ keys)
    (differ : Differ system (position nameA nameB)) :
    ∃ next, markAsDifferent depth bisim nameA nameB = some next ∧ Sound system keys next ∧
      Grown keys bisim next ∧ Marked (toPairs keys next) (position nameA nameB) := by
  by_cases marked : isDifferent bisim nameA nameB = true
  · refine ⟨bisim, ?_, sound, Grows.refl _, marked⟩
    unfold markAsDifferent
    exact if_pos marked
  · have few : unmarkedCount (toPairs keys bisim) ≤ depth :=
      Nat.le_trans List.countP_le_length enough
    have passed : ∀ key parent, parent ∈ ((toPairs keys bisim).value key).parents →
        parent ∈ (toPairs keys bisim).keys ∧ (Differ system key → Differ system parent) :=
      fun key parent inside => sound.parents inside
    have room : if ((toPairs keys bisim).value (position nameA nameB)).marked then
        unmarkedCount (toPairs keys bisim) < depth else
        unmarkedCount (toPairs keys bisim) ≤ depth := by
      rw [if_neg (show ¬ ((toPairs keys bisim).value (position nameA nameB)).marked = true from
        marked)]
      exact few
    obtain ⟨pairs, called, marks, now, -⟩ := markPairValue_marks passed depth member differ room
    rw [← markAsDifferent_eq depth marked] at called
    obtain ⟨next, ran, rfl⟩ := map_eq_some_iff.mp called
    refine ⟨next, ran, ⟨?_, ?_, ?_⟩, ⟨rfl, ?_, marks.kept⟩, now⟩
    · intro key isMarked
      cases marks.bad isMarked with
      | inl before => exact sound.differ before
      | inr isBad => exact isBad
    · intro key parent inside
      rw [marks.parents] at inside
      exact sound.parents inside
    · intro key isMarked parent inside
      rw [marks.parents] at inside
      by_cases before : Marked (toPairs keys bisim) key
      · exact marks.kept (sound.closed before parent inside)
      · exact marks.closed isMarked before parent inside
    · intro key parent inside
      rw [marks.parents]
      exact inside

theorem Sound.wait {bisim : Bisim} (sound : Sound system keys bisim) {nameA nameB depA depB : Str}
    (member : position depA depB ∈ keys) (fresh : ¬ isDifferent bisim nameA nameB = true)
    (depends : ¬ Bisimilar system nameA nameB → Differ system (position depA depB)) :
    Sound system keys (registerDependency bisim nameA nameB depA depB) ∧
      Grown keys bisim (registerDependency bisim nameA nameB depA depB) ∧
      position depA depB ∈ ((toPairs keys (registerDependency bisim nameA nameB depA depB)).value
        (position nameA nameB)).parents := by
  have marked : ∀ {other}, Marked (toPairs keys (registerDependency bisim nameA nameB depA depB))
      other ↔ Marked (toPairs keys bisim) other := by
    intro other
    rw [toPairs_register]
    unfold Marked StatePairs.set
    by_cases same : other = position nameA nameB
    · simp [same]
    · simp [same]
  have parents : ∀ {other member},
      member ∈ ((toPairs keys (registerDependency bisim nameA nameB depA depB)).value
        other).parents ↔
      member ∈ ((toPairs keys bisim).value other).parents ∨
        other = position nameA nameB ∧ member = position depA depB := by
    intro other member
    rw [toPairs_register]
    unfold StatePairs.set
    by_cases same : other = position nameA nameB
    · simp [same]
    · simp [same]
  refine ⟨⟨fun now => sound.differ (marked.mp now), ?_, ?_⟩,
    ⟨rfl, fun inside => parents.mpr (.inl inside), marked.mpr⟩, parents.mpr (.inr ⟨rfl, rfl⟩)⟩
  · intro other waiting inside
    cases parents.mp inside with
    | inl before => exact sound.parents before
    | inr added =>
      rw [added.1, added.2]
      exact ⟨member, fun differ => depends (differ_position.mp differ)⟩
  · intro other now waiting inside
    rw [marked] at now ⊢
    cases parents.mp inside with
    | inl before => exact sound.closed now waiting before
    | inr added =>
      obtain ⟨rfl, _⟩ := added
      exact absurd now fresh

end Marks

/-! ## The system of repositories -/

section Repositories

variable {Value : Type}

/-- The repository of a computed root. -/
def computedRepo (root : Root Value) : Option Str :=
  match root.location with
  | .computed repo _ _ => some repo
  | .treeStructure repo => some repo
  | _ => none

/-- The four roots of a repository; the ones before are the defaults of the next. -/
def resolved (repos : Repositories Value) (depth : Nat) (name : Str) (rootName : RootName) :
    Option (Root Value) :=
  let repository := getRoot repos depth name .repository none
  let targetRoot := getRoot repos depth name .targetRoot repository
  let ruleRoot := getRoot repos depth name .ruleRoot targetRoot
  match rootName with
  | .repository => repository
  | .targetRoot => targetRoot
  | .ruleRoot => ruleRoot
  | .expressionRoot => getRoot repos depth name .expressionRoot ruleRoot

/-- What leads from a repository to another. -/
inductive Link where
  | binding (name : Str)
  | computed (rootName : RootName)

/-- Where a link leads. -/
def follow (repos : Repositories Value) (depth : Nat) (name : Str) : Link → Option Str
  | .binding link => (find name repos).bind fun desc => find link (bindingsOf desc)
  | .computed rootName => (resolved repos depth name rootName).bind computedRepo

/-- All references lead to repositories, and all roots are found. -/
structure Regular (repos : Repositories Value) (depth : Nat) : Prop where
  resolves : ∀ name, (find name repos).isSome → ∀ rootName,
    (resolved repos depth name rootName).isSome
  follows : ∀ name link other, follow repos depth name link = some other → (find other repos).isSome

variable [EmptyCollection Value]

/-- A description as it is compared, without the repository of a computed root. -/
def normal : Location Value → Location Value
  | .file path => .file path
  | .archive zip content subdir _ => .archive zip content (some (subdir.getD (lit "."))) ∅
  | .git commit subdir _ => .git commit (some (subdir.getD (lit "."))) ∅
  | .computed _ target config => .computed [] target (some (config.getD ∅))
  | .treeStructure _ => .treeStructure []
  | .other type fields => .other type fields

/-- What is compared of a root, for unknown types with the pragma. -/
def compared (root : Root Value) : Location Value × Option (Option (Pragma Value)) :=
  (normal root.location,
    match root.location with
    | .other _ _ => some root.pragma
    | _ => none)

/-- The system of repositories, as far as they are compared. -/
def system (repos : Repositories Value) (depth : Nat) : System Str Link
    (Option (Str × Str × Str) × (RootName → Option (Location Value × Option (Option (Pragma Value)))))
    where
  label := fun name =>
    ((find name repos).map fileNames, fun rootName =>
      (resolved repos depth name rootName).map compared)
  next := follow repos depth

variable [DecidableEq Value]

theorem rootsEqual_eq (a b : Root Value) (nameA nameB : Str) (bisim : Bisim) :
    rootsEqual a b nameA nameB bisim = if compared a = compared b then
        match computedRepo a, computedRepo b with
        | some repoA, some repoB => computedEqual repoA repoB nameA nameB bisim
        | _, _ => (true, bisim)
      else (false, bisim) := by
  obtain ⟨locationA, pragmaA⟩ := a
  obtain ⟨locationB, pragmaB⟩ := b
  cases locationA with
  | file pathA =>
    cases locationB <;> simp [rootsEqual, compared, normal, computedRepo]
    split <;> simp_all
  | archive zipA contentA subdirA fetchA =>
    cases locationB <;> simp [rootsEqual, compared, normal, computedRepo]
    split <;> simp_all
  | git commitA subdirA fetchA =>
    cases locationB <;> simp [rootsEqual, compared, normal, computedRepo]
    split <;> simp_all
  | computed repoA targetA configA =>
    cases locationB <;> simp [rootsEqual, compared, normal, computedRepo]
    split <;> split <;> simp_all
  | treeStructure repoA => cases locationB <;> simp [rootsEqual, compared, normal, computedRepo]
  | other typeA fieldsA =>
    cases locationB <;> simp [rootsEqual, compared, normal, computedRepo]
    split <;> simp_all

/-! ## Comparing a pair -/

section Comparing

variable {repos : Repositories Value} {depth : Nat} {keys : List (Str × Str)} {a b : Str}
  {bisim : Bisim}

/-- Two repositories are the same, or a pair waits for them. -/
def Waits (keys : List (Str × Str)) (a b : Str) (bisim : Bisim) (left right : Str) : Prop :=
  left = right ∨ position a b ∈ ((toPairs keys bisim).value (position left right)).parents

/-- A pair waits for where a link leads. -/
def FollowsAgree (repos : Repositories Value) (depth : Nat) (keys : List (Str × Str)) (a b : Str)
    (link : Link) (bisim : Bisim) : Prop :=
  Option.Rel (Waits keys a b bisim) (follow repos depth a link) (follow repos depth b link)

omit [EmptyCollection Value] [DecidableEq Value] in
theorem FollowsAgree.grows {next : Bisim} {link : Link}
    (agree : FollowsAgree repos depth keys a b link bisim) (grown : Grown keys bisim next) :
    FollowsAgree repos depth keys a b link next := by
  unfold FollowsAgree at agree ⊢
  generalize follow repos depth a link = left at agree
  generalize follow repos depth b link = right at agree
  cases agree with
  | none => exact .none
  | some waits =>
    refine .some ?_
    cases waits with
    | inl same => exact .inl same
    | inr waiting => exact .inr (grown.parents waiting)

/-- Two roots agree. -/
structure RootsAgree (repos : Repositories Value) (depth : Nat) (keys : List (Str × Str))
    (a b : Str) (rootName : RootName) (bisim : Bisim) : Prop where
  compared : (resolved repos depth a rootName).map compared =
    (resolved repos depth b rootName).map compared
  repos : FollowsAgree repos depth keys a b (.computed rootName) bisim

section
omit [DecidableEq Value]

theorem compareNext_spec (sound : Sound (system repos depth) keys bisim)
    (member : position a b ∈ keys) {link : Link} {left right : Str}
    (leftNext : follow repos depth a link = some left)
    (rightNext : follow repos depth b link = some right)
    (fresh : ¬ isDifferent bisim left right = true) :
    Sound (system repos depth) keys (registerDependency bisim left right a b) ∧
      Grown keys bisim (registerDependency bisim left right a b) ∧
      Waits keys a b (registerDependency bisim left right a b) left right := by
  have waited := sound.wait member fresh fun apart =>
    differ_position.mpr fun alike => apart (alike.next leftNext rightNext)
  exact ⟨waited.1, waited.2.1, .inr waited.2.2⟩

theorem not_bisimilar_of_different (sound : Sound (system repos depth) keys bisim) {link : Link}
    {left right : Str} (leftNext : follow repos depth a link = some left)
    (rightNext : follow repos depth b link = some right)
    (different : isDifferent bisim left right = true) : ¬ Bisimilar (system repos depth) a b := by
  intro alike
  exact differ_position.mp (sound.differ different) (alike.next leftNext rightNext)

end

theorem rootsEqual_spec (sound : Sound (system repos depth) keys bisim)
    (member : position a b ∈ keys) {rootName : RootName} {rootA rootB : Root Value}
    (foundA : resolved repos depth a rootName = some rootA)
    (foundB : resolved repos depth b rootName = some rootB) {outcome : Bool × Bisim}
    (called : rootsEqual rootA rootB a b bisim = outcome) :
    Sound (system repos depth) keys outcome.2 ∧ Grown keys bisim outcome.2 ∧
      (outcome.1 = true → RootsAgree repos depth keys a b rootName outcome.2) ∧
      (outcome.1 = false → ¬ Bisimilar (system repos depth) a b) := by
  subst called
  rw [rootsEqual_eq]
  by_cases same : compared rootA = compared rootB
  · have labels : (resolved repos depth a rootName).map compared =
        (resolved repos depth b rootName).map compared := by
      rw [foundA, foundB, map_some, map_some, same]
    have nextA : follow repos depth a (.computed rootName) = computedRepo rootA := by
      rw [follow, foundA, bind_some]
    have nextB : follow repos depth b (.computed rootName) = computedRepo rootB := by
      rw [follow, foundB, bind_some]
    rw [if_pos same]
    cases leftNext : computedRepo rootA with
    | none =>
      cases rightNext : computedRepo rootB with
      | none =>
        refine ⟨sound, Grows.refl _, fun _ => ⟨labels, ?_⟩, fun impossible => by cases impossible⟩
        rw [FollowsAgree, nextA, nextB, leftNext, rightNext]
        exact .none
      | some right =>
        exact absurd same (by
          obtain ⟨locationA, pragmaA⟩ := rootA
          obtain ⟨locationB, pragmaB⟩ := rootB
          cases locationA <;> cases locationB <;> simp_all [computedRepo, compared, normal])
    | some left =>
      cases rightNext : computedRepo rootB with
      | none =>
        exact absurd same (by
          obtain ⟨locationA, pragmaA⟩ := rootA
          obtain ⟨locationB, pragmaB⟩ := rootB
          cases locationA <;> cases locationB <;> simp_all [computedRepo, compared, normal])
      | some right =>
        simp only [computedEqual]
        by_cases equal : left = right
        · rw [if_pos equal]
          refine ⟨sound, Grows.refl _, fun _ => ⟨labels, ?_⟩, fun impossible => by cases impossible⟩
          rw [FollowsAgree, nextA, nextB, leftNext, rightNext]
          exact .some (.inl equal)
        · rw [if_neg equal]
          by_cases different : isDifferent bisim left right = true
          · rw [if_pos different]
            exact ⟨sound, Grows.refl _, fun impossible => (by cases impossible), fun _ =>
              not_bisimilar_of_different sound (nextA.trans leftNext) (nextB.trans rightNext)
                different⟩
          · rw [if_neg different]
            obtain ⟨kept, grown, waits⟩ := compareNext_spec sound member (nextA.trans leftNext)
              (nextB.trans rightNext) different
            refine ⟨kept, grown, fun _ => ⟨labels, ?_⟩, fun impossible => by cases impossible⟩
            rw [FollowsAgree, nextA, nextB, leftNext, rightNext]
            exact .some waits
  · rw [if_neg same]
    refine ⟨sound, Grows.refl _, fun impossible => (by cases impossible), fun _ alike => same ?_⟩
    have labels := congrFun (congrArg snd alike.label) rootName
    simp only [system, foundA, foundB, map_some, some.injEq] at labels
    exact labels

/-- The roots of both repositories are found one after the other. -/
def Chained (repos : Repositories Value) (depth : Nat) (name : Str) :
    List RootName → Option (Root Value) → Prop
  | [], _ => True
  | rootName :: rest, defaultRoot =>
    getRoot repos depth name rootName defaultRoot = resolved repos depth name rootName ∧
      Chained repos depth name rest (resolved repos depth name rootName)

omit [DecidableEq Value] [EmptyCollection Value] in
theorem chained_all (name : Str) :
    Chained repos depth name [.repository, .targetRoot, .ruleRoot, .expressionRoot] none :=
  ⟨rfl, rfl, rfl, rfl, trivial⟩

theorem rootsLoop_spec (regular : Regular repos depth) (isRepoA : (find a repos).isSome)
    (isRepoB : (find b repos).isSome) (member : position a b ∈ keys) {rootNames : List RootName}
    {defaultA defaultB : Option (Root Value)} (chainedA : Chained repos depth a rootNames defaultA)
    (chainedB : Chained repos depth b rootNames defaultB) {bisim : Bisim}
    (sound : Sound (system repos depth) keys bisim) :
    ∃ equal next, rootsLoop repos depth a b rootNames defaultA defaultB bisim = some (equal, next) ∧
      Sound (system repos depth) keys next ∧ Grown keys bisim next ∧
      (equal = true → ∀ rootName ∈ rootNames, RootsAgree repos depth keys a b rootName next) ∧
      (equal = false → ¬ Bisimilar (system repos depth) a b) := by
  induction rootNames generalizing defaultA defaultB bisim with
  | nil =>
    exact ⟨true, bisim, rfl, sound, Grows.refl _, fun _ _ impossible => (by cases impossible),
      fun impossible => by cases impossible⟩
  | cons rootName rest step =>
    obtain ⟨rootA, foundA⟩ := isSome_iff_exists.mp (regular.resolves a isRepoA rootName)
    obtain ⟨rootB, foundB⟩ := isSome_iff_exists.mp (regular.resolves b isRepoB rootName)
    have laterA := chainedA.2
    have laterB := chainedB.2
    rw [foundA] at laterA
    rw [foundB] at laterB
    rw [rootsLoop, chainedA.1, chainedB.1, foundA, foundB]
    simp only [bind_eq_bind, bind_some]
    cases called : rootsEqual rootA rootB a b bisim with
    | mk equal next =>
      obtain ⟨kept, grown, agree, apart⟩ := rootsEqual_spec sound member foundA foundB called
      cases equal with
      | false =>
        exact ⟨false, next, rfl, kept, grown, fun impossible => (by cases impossible),
          fun _ => apart rfl⟩
      | true =>
        obtain ⟨equal, last, ran, final, further, all, differ⟩ := step laterA laterB kept
        refine ⟨equal, last, ran, final, grown.trans further, ?_, differ⟩
        intro isEqual other inside
        cases mem_cons.mp inside with
        | inl same =>
          have here := agree rfl
          rw [same]
          exact ⟨here.compared, here.repos.grows further⟩
        | inr inRest => exact all isEqual other inRest

theorem repoRootsEqual_spec (regular : Regular repos depth) (isRepoA : (find a repos).isSome)
    (isRepoB : (find b repos).isSome) (member : position a b ∈ keys)
    (sound : Sound (system repos depth) keys bisim) :
    ∃ equal next, repoRootsEqual repos depth a b bisim = some (equal, next) ∧
      Sound (system repos depth) keys next ∧ Grown keys bisim next ∧
      (equal = true → (find a repos).map fileNames = (find b repos).map fileNames ∧
        ∀ rootName, RootsAgree repos depth keys a b rootName next) ∧
      (equal = false → ¬ Bisimilar (system repos depth) a b) := by
  obtain ⟨descA, foundA⟩ := isSome_iff_exists.mp isRepoA
  obtain ⟨descB, foundB⟩ := isSome_iff_exists.mp isRepoB
  obtain ⟨equal, next, ran, kept, grown, agree, apart⟩ := rootsLoop_spec regular isRepoA isRepoB
    member (chained_all a) (chained_all b) sound
  unfold repoRootsEqual
  rw [ran]
  simp only [bind_eq_bind, bind_some]
  cases equal with
  | false =>
    exact ⟨false, next, rfl, kept, grown, fun impossible => (by cases impossible),
      fun _ => apart rfl⟩
  | true =>
    simp only [↓reduceIte, foundA, foundB, bind_some]
    refine ⟨_, next, rfl, kept, grown, ?_, ?_⟩
    · intro same
      refine ⟨congrArg some (of_decide_eq_true same), fun rootName => agree rfl rootName ?_⟩
      cases rootName <;> simp
    · intro differ alike
      have labels := congrArg fst alike.label
      simp only [system, foundA, foundB, map_some, some.injEq] at labels
      exact of_decide_eq_false differ labels

/-- A pair has been compared: it is marked, or the repositories look the same and the pair waits for
all repositories to which they lead. -/
def Done (repos : Repositories Value) (depth : Nat) (keys : List (Str × Str)) (bisim : Bisim)
    (pair : Str × Str) : Prop :=
  Marked (toPairs keys bisim) (position pair.1 pair.2) ∨
    (system repos depth).label pair.1 = (system repos depth).label pair.2 ∧
      ∀ link, FollowsAgree repos depth keys pair.1 pair.2 link bisim

section
omit [DecidableEq Value]

theorem Done.grows {next : Bisim} {pair : Str × Str} (done : Done repos depth keys bisim pair)
    (grown : Grown keys bisim next) : Done repos depth keys next pair := by
  cases done with
  | inl marked => exact .inl (grown.kept marked)
  | inr agree => exact .inr ⟨agree.1, fun link => (agree.2 link).grows grown⟩

theorem compareLink_spec (enough : keys.length ≤ depth) (member : position a b ∈ keys)
    {descA descB : Repository Value} (foundA : find a repos = some descA)
    (foundB : find b repos = some descB) {link : Str} (inA : link ∈ (bindingsOf descA).map (·.1))
    (inB : link ∈ (bindingsOf descB).map (·.1)) (sound : Sound (system repos depth) keys bisim) :
    ∃ next, compareLink depth a b (bindingsOf descA) (bindingsOf descB) bisim link = some next ∧
      Sound (system repos depth) keys next ∧ Grown keys bisim next ∧
      (Marked (toPairs keys next) (position a b) ∨
        FollowsAgree repos depth keys a b (.binding link) next) := by
  obtain ⟨left, leftFound⟩ := isSome_iff_exists.mp (mem_keys.mp inA)
  obtain ⟨right, rightFound⟩ := isSome_iff_exists.mp (mem_keys.mp inB)
  have leftNext : follow repos depth a (.binding link) = some left := by
    rw [follow, foundA, bind_some, leftFound]
  have rightNext : follow repos depth b (.binding link) = some right := by
    rw [follow, foundB, bind_some, rightFound]
  unfold compareLink
  simp only [leftFound, rightFound, bind_eq_bind, bind_some]
  by_cases same : left = right
  · rw [if_pos same]
    refine ⟨bisim, rfl, sound, Grows.refl _, .inr ?_⟩
    rw [FollowsAgree, leftNext, rightNext]
    exact .some (.inl same)
  · rw [if_neg same]
    by_cases different : isDifferent bisim left right = true
    · rw [if_pos different]
      obtain ⟨next, ran, kept, grown, marked⟩ := sound.mark enough member (differ_position.mpr
        (not_bisimilar_of_different sound leftNext rightNext different))
      exact ⟨next, ran, kept, grown, .inl marked⟩
    · rw [if_neg different]
      obtain ⟨kept, grown, waits⟩ := compareNext_spec sound member leftNext rightNext different
      refine ⟨_, rfl, kept, grown, .inr ?_⟩
      rw [FollowsAgree, leftNext, rightNext]
      exact .some waits

end

theorem compareRepos_spec (regular : Regular repos depth) (enough : keys.length ≤ depth)
    (isRepoA : (find a repos).isSome) (isRepoB : (find b repos).isSome)
    (member : position a b ∈ keys) (sound : Sound (system repos depth) keys bisim) :
    ∃ next, compareRepos repos depth bisim (a, b) = some next ∧
      Sound (system repos depth) keys next ∧ Grown keys bisim next ∧
      Done repos depth keys next (a, b) := by
  have marking : ∀ bisim, Sound (system repos depth) keys bisim →
      ¬ Bisimilar (system repos depth) a b →
      ∃ next, markAsDifferent depth bisim a b = some next ∧
        Sound (system repos depth) keys next ∧ Grown keys bisim next ∧
        Done repos depth keys next (a, b) := by
    intro bisim sound apart
    obtain ⟨next, ran, kept, grown, marked⟩ := sound.mark enough member (differ_position.mpr apart)
    exact ⟨next, ran, kept, grown, .inl marked⟩
  unfold compareRepos
  simp only
  by_cases different : isDifferent bisim a b = true
  · rw [if_pos different]
    exact ⟨bisim, rfl, sound, Grows.refl _, .inl different⟩
  · rw [if_neg different]
    obtain ⟨descA, foundA⟩ := isSome_iff_exists.mp isRepoA
    obtain ⟨descB, foundB⟩ := isSome_iff_exists.mp isRepoB
    obtain ⟨equal, middle, ran, kept, grown, agree, apart⟩ :=
      repoRootsEqual_spec regular isRepoA isRepoB member sound
    rw [ran]
    simp only [bind_eq_bind, bind_some]
    cases equal with
    | false =>
      obtain ⟨next, marked, final, further, done⟩ := marking middle kept (apart rfl)
      exact ⟨next, marked, final, grown.trans further, done⟩
    | true =>
      simp only [↓reduceIte, foundA, foundB, bind_some]
      by_cases sameLinks : (∀ link ∈ (bindingsOf descA).map (·.1),
          link ∈ (bindingsOf descB).map (·.1)) ∧
          ∀ link ∈ (bindingsOf descB).map (·.1), link ∈ (bindingsOf descA).map (·.1)
      · rw [if_pos sameLinks]
        obtain ⟨next, looped, final, further, reached⟩ := @Loops.foldlM_reaches _ _
          ((bindingsOf descA).map (·.1))
          (compareLink depth a b (bindingsOf descA) (bindingsOf descB))
          (Sound (system repos depth) keys) (Grown keys)
          (fun link next => Marked (toPairs keys next) (position a b) ∨
            FollowsAgree repos depth keys a b (.binding link) next)
          (fun _ => Grows.refl _) (fun first second => first.trans second)
          (fun before grown => before.elim (fun marked => .inl (grown.kept marked))
            fun follows => .inr (follows.grows grown))
          (fun _ link inside holds => compareLink_spec enough member foundA foundB inside
            (sameLinks.1 link inside) holds) middle kept
        refine ⟨next, looped, final, grown.trans further, ?_⟩
        by_cases marked : Marked (toPairs keys next) (position a b)
        · exact .inl marked
        · obtain ⟨files, roots⟩ := agree rfl
          refine .inr ⟨Prod.ext files (funext fun rootName => (roots rootName).compared), ?_⟩
          intro link
          cases link with
          | computed rootName => exact (roots rootName).repos.grows further
          | binding name =>
            by_cases inside : name ∈ (bindingsOf descA).map (·.1)
            · exact (reached name inside).resolve_left marked
            · have outside : name ∉ (bindingsOf descB).map (·.1) := fun inB =>
                inside (sameLinks.2 name inB)
              have noLeft : follow repos depth a (.binding name) = none := by
                rw [follow, foundA, bind_some]
                exact not_isSome_iff_eq_none.mp fun some' => inside (mem_keys.mpr some')
              have noRight : follow repos depth b (.binding name) = none := by
                rw [follow, foundB, bind_some]
                exact not_isSome_iff_eq_none.mp fun some' => outside (mem_keys.mpr some')
              rw [FollowsAgree, noLeft, noRight]
              exact .none
      · rw [if_neg sameLinks]
        have apart' : ¬ Bisimilar (system repos depth) a b := by
          intro alike
          have both : ∀ link, link ∈ (bindingsOf descA).map (·.1) ↔
              link ∈ (bindingsOf descB).map (·.1) := by
            intro link
            have present := alike.isSome (.binding link)
            simp only [system, follow, foundA, foundB, bind_some] at present
            rw [mem_keys, mem_keys, present]
          exact sameLinks ⟨fun link => (both link).mp, fun link => (both link).mpr⟩
        obtain ⟨next, marked, final, further, done⟩ := marking middle kept apart'
        exact ⟨next, marked, final, grown.trans further, done⟩

end Comparing

/-! ## All pairs -/

section Pairs

omit [DecidableEq Value] [EmptyCollection Value]

theorem mem_orderedPairs {earlier names : List Str} {x y : Str} :
    (x, y) ∈ orderedPairs earlier names ↔
      ∃ front back, names = front ++ y :: back ∧ x ∈ earlier ++ front := by
  induction names generalizing earlier with
  | nil => simp [orderedPairs]
  | cons name rest step =>
    rw [orderedPairs, mem_append, step]
    constructor
    · rintro (here | ⟨front, back, rfl, before⟩)
      · obtain ⟨other, inside, same⟩ := mem_map.mp here
        cases same
        exact ⟨[], rest, rfl, by simpa using inside⟩
      · exact ⟨name :: front, back, rfl, by simpa using before⟩
    · rintro ⟨front, back, split, before⟩
      cases front with
      | nil =>
        cases split
        exact .inl (mem_map.mpr ⟨x, by simpa using before, rfl⟩)
      | cons first front =>
        cases split
        exact .inr ⟨front, back, rfl, by simpa using before⟩

theorem sortedNames_pairwise {repos : Repositories Value} (nodup : (repos.map (·.1)).Nodup) :
    (sortedNames repos).Pairwise (· < ·) := by
  have sorted : (sortedNames repos).Pairwise (· ≤ ·) := List.pairwise_insertionSort _ _
  have apart : (sortedNames repos).Nodup := (List.perm_insertionSort _ _).nodup_iff.mpr nodup
  exact (sorted.and apart).imp fun both => lt_of_le_of_ne both.1 both.2

theorem mem_sortedNames {repos : Repositories Value} {name : Str} :
    name ∈ sortedNames repos ↔ (find name repos).isSome := by
  rw [sortedNames, (List.perm_insertionSort _ _).mem_iff, mem_keys]

theorem position_of_mem {names : List Str} (sorted : names.Pairwise (· < ·)) {x y : Str}
    (member : (x, y) ∈ orderedPairs [] names) : position x y = (x, y) ∧ x ∈ names ∧ y ∈ names := by
  obtain ⟨front, back, rfl, before⟩ := mem_orderedPairs.mp member
  rw [nil_append] at before
  have less : x < y := (List.pairwise_append.mp sorted).2.2 x before y mem_cons_self
  exact ⟨if_pos less, mem_append_left _ before, mem_append_right _ mem_cons_self⟩

theorem position_mem {names : List Str} (sorted : names.Pairwise (· < ·)) {x y : Str} (inX : x ∈ names)
    (inY : y ∈ names) (apart : x ≠ y) : position x y ∈ orderedPairs [] names := by
  have ordered : ∀ {x y : Str}, x ∈ names → y ∈ names → x < y →
      (x, y) ∈ orderedPairs [] names := by
    intro x y inX inY less
    obtain ⟨front, back, rfl⟩ := append_of_mem inY
    refine mem_orderedPairs.mpr ⟨front, back, rfl, ?_⟩
    rw [nil_append]
    cases mem_append.mp inX with
    | inl before => exact before
    | inr after =>
      cases mem_cons.mp after with
      | inl same => exact absurd (same ▸ less) (lt_irrefl _)
      | inr later =>
        have greater := (pairwise_cons.mp (List.pairwise_append.mp sorted).2.1).1 x later
        exact absurd less (lt_asymm greater)
  unfold position
  split
  · next less => exact ordered inX inY less
  · next notLess =>
    exact ordered inY inX (lt_of_le_of_ne (not_lt.mp notLess) apart.symm)

end Pairs

section Deciding

variable {repos : Repositories Value} {depth : Nat}

omit [DecidableEq Value] in
theorem bisimilar_of_unmarked (regular : Regular repos depth) {names : List Str}
    (sorted : names.Pairwise (· < ·)) (all : ∀ name, name ∈ names ↔ (find name repos).isSome)
    {bisim : Bisim} (sound : Sound (system repos depth) (orderedPairs [] names) bisim)
    (done : ∀ pair ∈ orderedPairs [] names, Done repos depth (orderedPairs [] names) bisim pair)
    {x y : Str} (inX : x ∈ names) (inY : y ∈ names)
    (unmarked : ¬ Marked (toPairs (orderedPairs [] names) bisim) (position x y)) :
    Bisimilar (system repos depth) x y := by
  have agrees : ∀ {x y : Str}, (x, y) ∈ orderedPairs [] names →
      ¬ Marked (toPairs (orderedPairs [] names) bisim) (position x y) →
      (system repos depth).label x = (system repos depth).label y ∧
      ∀ link, Option.Rel (fun left right => left = right ∨ (left ∈ names ∧ right ∈ names ∧
        ¬ Marked (toPairs (orderedPairs [] names) bisim) (position left right)))
        (follow repos depth x link) (follow repos depth y link) := by
    intro x y member unmarked
    have compared := (done (x, y) member).resolve_left unmarked
    refine ⟨compared.1, fun link => ?_⟩
    have follows := compared.2 link
    unfold FollowsAgree at follows
    refine rel_of ?_ ?_
    · intro left leftNext
      obtain ⟨right, rightNext, waits⟩ := exists_right follows leftNext
      refine ⟨right, rightNext, waits.imp_right fun waiting => ?_⟩
      exact ⟨(all left).mpr (regular.follows _ _ _ leftNext),
        (all right).mpr (regular.follows _ _ _ rightNext),
        fun marked => unmarked (sound.closed marked _ waiting)⟩
    · intro right rightNext
      obtain ⟨left, leftNext, _⟩ := exists_left follows rightNext
      rw [leftNext]
      rfl
  refine ⟨fun left right => left = right ∨ (left ∈ names ∧ right ∈ names ∧
    ¬ Marked (toPairs (orderedPairs [] names) bisim) (position left right)), ?_,
    .inr ⟨inX, inY, unmarked⟩⟩
  intro left right related
  cases related with
  | inl same =>
    subst same
    refine ⟨rfl, fun link => ?_⟩
    cases (system repos depth).next left link with
    | none => exact .none
    | some next => exact .some (.inl rfl)
  | inr pair =>
    obtain ⟨inLeft, inRight, unmarked⟩ := pair
    by_cases same : left = right
    · subst same
      refine ⟨rfl, fun link => ?_⟩
      cases (system repos depth).next left link with
      | none => exact .none
      | some next => exact .some (.inl rfl)
    · have member := position_mem sorted inLeft inRight same
      unfold position at member unmarked
      split at member
      · next less =>
        rw [if_pos less] at unmarked
        have here : position left right = (left, right) := if_pos less
        rw [← here] at unmarked
        exact agrees member unmarked
      · next notLess =>
        rw [if_neg notLess] at unmarked
        have here : position right left = (right, left) := (position_of_mem sorted member).1
        rw [← here] at unmarked
        obtain ⟨labels, follows⟩ := agrees member unmarked
        refine ⟨labels.symm, fun link => ?_⟩
        refine rel_of ?_ ?_
        · intro next leftNext
          obtain ⟨other, rightNext, holds⟩ := exists_left (follows link) leftNext
          refine ⟨other, rightNext, ?_⟩
          cases holds with
          | inl equal => exact .inl equal.symm
          | inr pair =>
            refine .inr ⟨pair.2.1, pair.1, ?_⟩
            rw [position_eq, statePairKey_comm, ← position_eq]
            exact pair.2.2
        · intro other rightNext
          obtain ⟨next, leftNext, _⟩ := exists_right (follows link) rightNext
          exact isSome_iff_exists.mpr ⟨next, leftNext⟩

/-- A list has all repositories that are bisimilar to one of them. -/
structure IsClass (repos : Repositories Value) (depth : Nat) (c : List Str) : Prop where
  nodup : c.Nodup
  nonempty : c ≠ []
  mem_iff : ∀ x ∈ c, ∀ y, y ∈ c ↔ (find y repos).isSome ∧ Bisimilar (system repos depth) x y

omit [DecidableEq Value] in
theorem collectClasses_spec {names : List Str}
    (all : ∀ name, name ∈ names ↔ (find name repos).isSome) {bisim : Bisim}
    (decides : ∀ x ∈ names, ∀ y ∈ names, x < y →
      ((bisim (x, y)).different = true ↔ ¬ Bisimilar (system repos depth) x y))
    {remaining passed done : List Str} (sorted : remaining.Pairwise (· > ·))
    (split : ∀ name, name ∈ names ↔ name ∈ passed ∨ name ∈ remaining)
    (isDone : ∀ x ∈ remaining, x ∈ done ↔ ∃ p ∈ passed, Bisimilar (system repos depth) x p) :
    (∀ c ∈ Tools.collectClasses bisim remaining done, IsClass repos depth c) ∧
      ∀ x ∈ remaining, x ∈ done ∨ ∃ c ∈ Tools.collectClasses bisim remaining done, x ∈ c := by
  induction remaining generalizing passed done with
  | nil => exact ⟨fun _ impossible => (by cases impossible), fun _ impossible => by cases impossible⟩
  | cons name earlier step =>
    obtain ⟨above, sortedEarlier⟩ := pairwise_cons.mp sorted
    have inNames : name ∈ names := (split name).mpr (.inr mem_cons_self)
    have split' : ∀ other, other ∈ names ↔ other ∈ passed ++ [name] ∨ other ∈ earlier := by
      intro other
      rw [split, mem_append, mem_cons, mem_singleton]
      tauto
    unfold Tools.collectClasses
    by_cases known : name ∈ done
    · rw [if_pos known]
      obtain ⟨p, inPassed, alike⟩ := (isDone name mem_cons_self).mp known
      have later := step sortedEarlier split' (by
        intro x member
        rw [isDone x (mem_cons_of_mem _ member)]
        constructor
        · rintro ⟨q, inside, same⟩
          exact ⟨q, mem_append_left _ inside, same⟩
        · rintro ⟨q, inside, same⟩
          cases mem_append.mp inside with
          | inl before => exact ⟨q, before, same⟩
          | inr here => exact ⟨p, inPassed, (mem_singleton.mp here ▸ same).trans alike⟩)
      refine ⟨later.1, ?_⟩
      intro x member
      cases mem_cons.mp member with
      | inl same => exact .inl (same ▸ known)
      | inr inEarlier => exact later.2 x inEarlier
    · rw [if_neg known]
      have mem_others : ∀ x, x ∈ (earlier.reverse.filter fun other =>
          !(bisim (other, name)).different) ↔
          x ∈ earlier ∧ Bisimilar (system repos depth) x name := by
        intro x
        rw [mem_filter, List.mem_reverse]
        refine and_congr_right fun member => ?_
        have inX : x ∈ names := (split x).mpr (.inr (mem_cons_of_mem _ member))
        have decided := decides x inX name inNames (above x member)
        rw [Bool.not_eq_true', ← Bool.not_eq_true, decided, not_not]
      have noPassed : ∀ p ∈ passed, ¬ Bisimilar (system repos depth) name p := fun p inside alike =>
        known ((isDone name mem_cons_self).mpr ⟨p, inside, alike⟩)
      have later := @step (passed ++ [name]) (done ++ earlier.reverse.filter fun other =>
          !(bisim (other, name)).different) sortedEarlier split' (by
        intro x member
        rw [mem_append, mem_others, isDone x (mem_cons_of_mem _ member)]
        constructor
        · rintro (⟨q, inside, same⟩ | here)
          · exact ⟨q, mem_append_left _ inside, same⟩
          · exact ⟨name, mem_append_right _ mem_cons_self, here.2⟩
        · rintro ⟨q, inside, same⟩
          cases mem_append.mp inside with
          | inl before => exact .inl ⟨q, before, same⟩
          | inr here => exact .inr ⟨member, mem_singleton.mp here ▸ same⟩)
      refine ⟨?_, ?_⟩
      · intro c inside
        cases mem_cons.mp inside with
        | inr isLater => exact later.1 c isLater
        | inl here =>
          rw [here]
          have mem_class : ∀ y, y ∈ name :: (earlier.reverse.filter fun other =>
              !(bisim (other, name)).different) ↔
              (find y repos).isSome ∧ Bisimilar (system repos depth) name y := by
            intro y
            rw [mem_cons, mem_others, ← all, split, mem_cons]
            constructor
            · rintro (rfl | ⟨member, alike⟩)
              · exact ⟨.inr (.inl rfl), Bisimilar.refl _⟩
              · exact ⟨.inr (.inr member), alike.symm⟩
            · rintro ⟨inPassed | same | inEarlier, alike⟩
              · exact absurd alike (noPassed y inPassed)
              · exact .inl same
              · exact .inr ⟨inEarlier, alike.symm⟩
          refine ⟨?_, cons_ne_nil _ _, ?_⟩
          · refine nodup_cons.mpr ⟨?_, ?_⟩
            · intro member
              exact lt_irrefl _ (above name ((mem_others name).mp member).1)
            · refine List.Nodup.filter _ (List.nodup_reverse.mpr ?_)
              exact List.Pairwise.imp (fun greater => (ne_of_lt greater).symm) sortedEarlier
          · intro x inX y
            have alikeX := ((mem_class x).mp inX).2
            rw [mem_class y]
            exact and_congr_right fun _ =>
              ⟨fun alike => alikeX.symm.trans alike, fun alike => alikeX.trans alike⟩
      · intro x member
        cases mem_cons.mp member with
        | inl same => exact .inr ⟨_, mem_cons_self, same ▸ mem_cons_self⟩
        | inr inEarlier =>
          cases later.2 x inEarlier with
          | inr found =>
            obtain ⟨c, inside, inC⟩ := found
            exact .inr ⟨c, mem_cons_of_mem _ inside, inC⟩
          | inl nowDone =>
            cases mem_append.mp nowDone with
            | inl before => exact .inl before
            | inr inOthers =>
              exact .inr ⟨_, mem_cons_self, mem_cons_of_mem _ inOthers⟩

theorem bisimilarRepos_spec (nodup : (repos.map (·.1)).Nodup) (regular : Regular repos depth)
    (enough : (orderedPairs [] (sortedNames repos)).length ≤ depth) :
    ∃ classes, bisimilarRepos repos depth = some classes ∧ (∀ c ∈ classes, IsClass repos depth c) ∧
      ∀ name, (find name repos).isSome → ∃ c ∈ classes, name ∈ c := by
  have sorted := sortedNames_pairwise nodup
  have all : ∀ name, name ∈ sortedNames repos ↔ (find name repos).isSome := fun _ =>
    mem_sortedNames
  have start : Sound (system repos depth) (orderedPairs [] (sortedNames repos))
      (fun _ => ⟨false, []⟩) :=
    ⟨fun impossible => (by cases impossible), fun impossible => (by cases impossible),
      fun impossible => by cases impossible⟩
  obtain ⟨bisim, ran, sound, -, done⟩ := @Loops.foldlM_reaches _ _
    (orderedPairs [] (sortedNames repos)) (compareRepos repos depth)
    (Sound (system repos depth) (orderedPairs [] (sortedNames repos)))
    (Grown (orderedPairs [] (sortedNames repos)))
    (fun pair bisim => Done repos depth (orderedPairs [] (sortedNames repos)) bisim pair)
    (fun _ => Grows.refl _) (fun first second => first.trans second)
    (fun before grown => before.grows grown)
    (fun bisim pair member holds => by
      obtain ⟨here, inX, inY⟩ := position_of_mem sorted member
      exact compareRepos_spec regular enough ((all _).mp inX) ((all _).mp inY)
        (here.symm ▸ member) holds) _ start
  have decides : ∀ x ∈ sortedNames repos, ∀ y ∈ sortedNames repos, x < y →
      ((bisim (x, y)).different = true ↔ ¬ Bisimilar (system repos depth) x y) := by
    intro x inX y inY less
    have here : position x y = (x, y) := if_pos less
    constructor
    · intro different
      exact @Sound.differ _ _ _ _ _ sound (x, y) different
    · intro apart
      by_contra unmarked
      refine apart (bisimilar_of_unmarked regular sorted all sound done inX inY ?_)
      rw [here]
      exact unmarked
  unfold bisimilarRepos
  simp only [ran, bind_eq_bind, bind_some, pure_def, some.injEq]
  refine ⟨_, rfl, ?_⟩
  have collected := @collectClasses_spec _ _ repos depth (sortedNames repos) all bisim decides
    (sortedNames repos).reverse [] [] (List.pairwise_reverse.mpr sorted)
    (fun name => by simp) (fun x _ => by simp)
  refine ⟨collected.1, fun name isRepo => ?_⟩
  have member : name ∈ (sortedNames repos).reverse := List.mem_reverse.mpr ((all name).mpr isRepo)
  exact (collected.2 name member).resolve_left (by simp)

end Deciding

end Repositories

end Jst.Verif.BisimilarRepos
