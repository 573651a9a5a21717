import Jst.Tools.Repositories
import Mathlib.Data.List.Sort
import Mathlib.Data.Prod.Lex
import Mathlib.Logic.Function.Basic
/-!
# Deduplication of repositories

Repositories that cannot be told apart are found by marking pairs that differ, and those that depend
on them; of every class some repositories are kept, and references to the others are renamed. The
depth bounds recursions that the source does not bound.
-/
namespace Jst.Tools

open SortedMap

/-! ## Bisimilar repositories -/

/-- What is known about a pair of repositories. -/
structure BisimEntry where
  /-- `"different"`. -/
  different : Bool
  /-- `"different_if"` — pairs that differ if this one does. -/
  differentIf : List (Str × Str)

/-- `bisim`, where nothing is known about pairs that are not there. -/
abbrev Bisim := Str × Str → BisimEntry

/-- The position of a pair. -/
def position (nameA nameB : Str) : Str × Str :=
  if nameA < nameB then (nameA, nameB) else (nameB, nameA)

def isDifferent (bisim : Bisim) (nameA nameB : Str) : Bool := (bisim (position nameA nameB)).different

/-- `mark_as_different` — also all pairs that depend on this one. -/
def markAsDifferent : Nat → Bisim → Str → Str → Option Bisim
  | depth, bisim, nameA, nameB =>
    if isDifferent bisim nameA nameB then some bisim
    else
      match depth with
      | 0 => none
      | depth + 1 =>
        let entry := bisim (position nameA nameB)
        entry.differentIf.foldlM (fun bisim pair => markAsDifferent depth bisim pair.1 pair.2)
          (update bisim (position nameA nameB) { entry with different := true })

def registerDependency (bisim : Bisim) (nameA nameB depA depB : Str) : Bisim :=
  let entry := bisim (position nameA nameB)
  update bisim (position nameA nameB)
    { entry with differentIf := entry.differentIf ++ [(depA, depB)] }

/-- The repositories of two computed roots: equal, different, or equal if some pair is. -/
def computedEqual (repoA repoB nameA nameB : Str) (bisim : Bisim) : Bool × Bisim :=
  if repoA = repoB then (true, bisim)
  else if isDifferent bisim repoA repoB then (false, bisim)
  else (true, registerDependency bisim repoA repoB nameA nameB)

section Comparing

variable {Value : Type} [DecidableEq Value] [EmptyCollection Value]

def rootsEqual (a b : Root Value) (nameA nameB : Str) (bisim : Bisim) : Bool × Bisim :=
  match a.location, b.location with
  | .file pathA, .file pathB => (pathA = pathB, bisim)
  | .archive zipA contentA subdirA _, .archive zipB contentB subdirB _ =>
    (zipA = zipB ∧ contentA = contentB ∧ subdirA.getD (lit ".") = subdirB.getD (lit "."), bisim)
  | .git commitA subdirA _, .git commitB subdirB _ =>
    (commitA = commitB ∧ subdirA.getD (lit ".") = subdirB.getD (lit "."), bisim)
  | .computed repoA targetA configA, .computed repoB targetB configB =>
    if configA.getD ∅ ≠ configB.getD ∅ ∨ targetA ≠ targetB then (false, bisim)
    else computedEqual repoA repoB nameA nameB bisim
  | .treeStructure repoA, .treeStructure repoB => computedEqual repoA repoB nameA nameB bisim
  | .other _ _, .other _ _ => (a = b, bisim)
  | _, _ => (false, bisim)

/-- The loop over the roots of two repositories; the roots so far are the defaults of the next. -/
def rootsLoop (repos : Repositories Value) (depth : Nat) (nameA nameB : Str) :
    List RootName → Option (Root Value) → Option (Root Value) → Bisim → Option (Bool × Bisim)
  | [], _, _, bisim => some (true, bisim)
  | rootName :: rest, defaultA, defaultB, bisim => do
    let rootA ← getRoot repos depth nameA rootName defaultA
    let rootB ← getRoot repos depth nameB rootName defaultB
    let (equal, bisim) := rootsEqual rootA rootB nameA nameB bisim
    if equal then rootsLoop repos depth nameA nameB rest (some rootA) (some rootB) bisim
    else some (false, bisim)

/-- The file names of a repository. -/
def fileNames (desc : Repository Value) : Str × Str × Str :=
  (desc.targetFileName.getD (lit "TARGETS"), desc.ruleFileName.getD (lit "RULES"),
    desc.expressionFileName.getD (lit "EXPRESSIONS"))

def repoRootsEqual (repos : Repositories Value) (depth : Nat) (nameA nameB : Str) (bisim : Bisim) :
    Option (Bool × Bisim) := do
  let (equal, bisim) ← rootsLoop repos depth nameA nameB
    [.repository, .targetRoot, .ruleRoot, .expressionRoot] none none bisim
  if equal then
    let descA ← find nameA repos
    let descB ← find nameB repos
    some (fileNames descA = fileNames descB, bisim)
  else some (false, bisim)

/-- One link of two repositories with the same bindings. -/
def compareLink (depth : Nat) (nameA nameB : Str) (linksA linksB : List (Str × Str)) (bisim : Bisim)
    (link : Str) : Option Bisim := do
  let nextA ← find link linksA
  let nextB ← find link linksB
  if nextA = nextB then some bisim
  else if isDifferent bisim nextA nextB then markAsDifferent depth bisim nameA nameB
  else some (registerDependency bisim nextA nextB nameA nameB)

/-- The bindings of a repository. -/
def bindingsOf (desc : Repository Value) : List (Str × Str) := desc.bindings.getD []

/-- One pair in `bisimilar_repos`. -/
def compareRepos (repos : Repositories Value) (depth : Nat) (bisim : Bisim) (pair : Str × Str) :
    Option Bisim := do
  let (a, b) := pair
  if isDifferent bisim a b then some bisim
  else
    let (equal, bisim) ← repoRootsEqual repos depth a b bisim
    if equal then
      let linksA := bindingsOf (← find a repos)
      let linksB := bindingsOf (← find b repos)
      if (∀ link ∈ linksA.map (·.1), link ∈ linksB.map (·.1)) ∧
          ∀ link ∈ linksB.map (·.1), link ∈ linksA.map (·.1) then
        (linksA.map (·.1)).foldlM (compareLink depth a b linksA linksB) bisim
      else markAsDifferent depth bisim a b
    else markAsDifferent depth bisim a b

/-- The pairs of every name with those before it. -/
def orderedPairs (earlier : List Str) : List Str → List (Str × Str)
  | [] => []
  | name :: rest => earlier.map (·, name) ++ orderedPairs (earlier ++ [name]) rest

/-- The classes, from the last name to the first. -/
def collectClasses (bisim : Bisim) : List Str → List Str → List (List Str)
  | [], _ => []
  | name :: earlier, done =>
    if name ∈ done then collectClasses bisim earlier done
    else
      let others := earlier.reverse.filter fun other => !(bisim (other, name)).different
      (name :: others) :: collectClasses bisim earlier (done ++ others)

/-- `sorted(repos.keys())`. -/
def sortedNames (repos : Repositories Value) : List Str :=
  (repos.map (·.1)).insertionSort (· ≤ ·)

def bisimilarRepos (repos : Repositories Value) (depth : Nat) : Option (List (List Str)) := do
  let names := sortedNames repos
  let bisim ← (orderedPairs [] names).foldlM (compareRepos repos depth) fun _ => ⟨false, []⟩
  return collectClasses bisim names.reverse []

end Comparing

/-! ## Representatives and renaming -/

variable {Value : Type}

/-- The root of a repository is described in place. -/
def hasRoot (repos : Repositories Value) (name : Str) : Bool :=
  match find name repos with
  | none => false
  | some desc =>
    match desc.repository with
    | .root _ => true
    | .named _ => false

/-- The number of characters of a name. -/
def characters (name : Str) : Nat := name.countP fun byte => byte &&& 0xC0 ≠ 0x80

/-- What representatives are sorted by. -/
def representativeKey (name : Str) : Nat ×ₗ Nat ×ₗ Str :=
  toLex (name.count 47, toLex (characters name, name))

def chooseRepresentative (repos : Repositories Value) (keep c : List Str) : Option Str :=
  let withRoot := c.filter (hasRoot repos)
  let candidates := if withRoot.isEmpty then c else withRoot
  let keepEntries := candidates.filter (· ∈ keep)
  let candidates := if keepEntries.isEmpty then candidates else keepEntries
  (candidates.insertionSort fun left right =>
    representativeKey left ≤ representativeKey right).head?

/-- A flag of the pragma of a repository whose root is described in place. -/
def pragmaFlag (repos : Repositories Value) (flag : Pragma Value → Option Bool) (name : Str) :
    Option Bool :=
  match find name repos with
  | none => none
  | some desc =>
    match desc.repository with
    | .root root => some ((flag (root.pragma.getD .empty)).getD false)
    | .named _ => none

def mergePragma [DecidableEq Value] (repos : Repositories Value) (rep : Repository Value)
    (merged : List Str) : RootReference Value :=
  match rep.repository with
  | .named name => .named name
  | .root root =>
    let pragma := root.pragma.getD .empty
    let absent := merged.foldl (fun absent c => absent && (pragmaFlag repos (·.absent) c).getD true)
      (pragma.absent.getD false)
    let toGit := merged.foldl (fun toGit c => toGit || (pragmaFlag repos (·.toGit) c).getD false)
      (pragma.toGit.getD false)
    let pragma : Pragma Value :=
      ⟨if absent then some true else none, if toGit then some true else none, pragma.special⟩
    .root { root with pragma := if pragma = .empty then none else some pragma }

/-- The names that are renamed, and the roots with merged pragmas. -/
structure Merging (Value : Type) where
  /-- `renaming`. -/
  renames : List (Str × Str)
  updatedRepos : List (Str × RootReference Value)

/-- The loop over the classes. -/
def mergeClasses [DecidableEq Value] (repos : Repositories Value) (keep : List Str) :
    List (List Str) → Option (Merging Value)
  | [] => some ⟨[], []⟩
  | c :: rest =>
    if c.length = 1 then mergeClasses repos keep rest
    else do
      let rep ← chooseRepresentative repos keep c
      let desc ← find rep repos
      let merging ← mergeClasses repos keep rest
      return ⟨(c.filter fun repo => repo ∉ keep ∧ repo ≠ rep).map (·, rep) ++ merging.renames,
        (rep, mergePragma repos desc c) :: merging.updatedRepos⟩

/-- The name after renaming. -/
def renamed (renames : List (Str × Str)) (name : Str) : Str := (find name renames).getD name

def finalRootReference (repos : Repositories Value) (renames : List (Str × Str)) :
    Nat → Str → Option Str
  | 0, _ => none
  | depth + 1, name =>
    match find name repos with
    | none => none
    | some desc =>
      match desc.repository with
      | .root _ => some (renamed renames name)
      | .named other => finalRootReference repos renames depth other

/-- A root field in the new configuration, if its name is renamed. -/
def newRoot (repos : Repositories Value) (renames : List (Str × Str)) (depth : Nat) :
    RootReference Value → Option (RootReference Value)
  | .named name =>
    match find name renames with
    | none => some (.named name)
    | some _ => (finalRootReference repos renames depth name).map .named
  | .root root => some (.root root)

/-- The repository of a computed root is renamed. -/
def renameComputed (renames : List (Str × Str)) : RootReference Value → RootReference Value
  | .named name => .named name
  | .root root =>
    .root { root with location :=
      match root.location with
      | .computed repo target config => .computed (renamed renames repo) target config
      | .treeStructure repo => .treeStructure (renamed renames repo)
      | location => location }

/-- The description of a repository in the new configuration. -/
def newDescription (repos : Repositories Value) (merging : Merging Value) (depth : Nat) (name : Str)
    (desc : Repository Value) : Option (Repository Value) := do
  let repository := (find name merging.updatedRepos).getD desc.repository
  let repository ← newRoot repos merging.renames depth repository
  let targetRoot ← desc.targetRoot.mapM (newRoot repos merging.renames depth)
  let ruleRoot ← desc.ruleRoot.mapM (newRoot repos merging.renames depth)
  return { desc with
    repository := renameComputed merging.renames repository
    targetRoot
    ruleRoot
    bindings := desc.bindings.map fun bindings =>
      bindings.map fun item => (item.1, renamed merging.renames item.2) }

/-- The loop over the repositories. -/
def newRepositories (repos : Repositories Value) (merging : Merging Value) (depth : Nat) :
    Repositories Value → Option (Repositories Value)
  | [] => some []
  | (name, desc) :: rest =>
    match find name merging.renames with
    | some _ => newRepositories repos merging depth rest
    | none => do
      let desc ← newDescription repos merging depth name desc
      let rest ← newRepositories repos merging depth rest
      return (name, desc) :: rest

/-- What has to be kept. -/
def keepNames (config : Configuration Value) (userKeep : List Str) : List Str :=
  userKeep ++ config.main.toList

/-- `dedup` — the repositories of the new configuration. -/
def dedup [DecidableEq Value] [EmptyCollection Value] (config : Configuration Value)
    (userKeep : List Str) (depth : Nat) : Option (Repositories Value) := do
  let repos := config.repositories
  let bisim ← bisimilarRepos repos depth
  let merging ← mergeClasses repos (keepNames config userKeep) bisim
  newRepositories repos merging depth repos

end Jst.Tools
