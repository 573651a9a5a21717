import Jst.Verif.RepositoryKeys
/-!
# Repository keys after updates

`SetInfo` resets the key of the repository that is set and the map of duplicates, but not the keys
of the repositories that reach it. As long as every repository that keeps its key also keeps its
graph, all keys are those of a configuration in which nothing has been computed.
-/
namespace Jst.Verif.RepositoryKeyUpdates

open Jst.SortedMap Jst.DfaMinimizer Jst.Bisimulation Jst.Repositories Jst.Verif.RepositoryKeys
open Relation (ReflTransGen)

variable {Precomputed Digest : Type} {contentId : Fields → Str} {storeBlob : JsonValue → Option Digest}
  {config next : RepositoryConfig Precomputed Digest} {described described' : Described} {repo : Str}

/-- A repository reaches the same, or something that is missing or not content-fixed both times. -/
def SameGraph (described described' : Described) (repo : Str) : Prop :=
  Alike described described' repo repo ∨ (¬Complete described repo ∧ ¬Complete described' repo)

/-- Every repository that keeps its key in an update reaches the same as before. -/
def Harmless (config next : RepositoryConfig Precomputed Digest) : Prop :=
  ∀ repo data, find repo next.repos = some data → data.key.isSome →
    SameGraph (contentFixed config) (contentFixed next) repo

section Unreached

theorem sameGraph_of_unreached (same : ∀ other, ReflTransGen (Binds described) repo other →
      described' other = described other) : SameGraph described described' repo := by
  have forth : ∀ other, ReflTransGen (Binds described) repo other →
      ReflTransGen (Binds described') repo other := by
    intro other path
    induction path with
    | refl => exact .refl
    | tail before binds step =>
      obtain ⟨desc, nameMapping, symbol, found, target⟩ := binds
      exact step.tail ⟨desc, nameMapping, symbol, (same _ before).trans found, target⟩
  have back : ∀ other, ReflTransGen (Binds described') repo other →
      ReflTransGen (Binds described) repo other := by
    intro other path
    induction path with
    | refl => exact .refl
    | tail _ binds step =>
      obtain ⟨desc, nameMapping, symbol, found, target⟩ := binds
      exact step.tail ⟨desc, nameMapping, symbol, (same _ step).symm.trans found, target⟩
  have complete : Complete described repo ↔ Complete described' repo := by
    constructor
    · intro complete other path
      rw [same other (back other path)]
      exact complete other (back other path)
    · intro complete other path
      rw [← same other path]
      exact complete other (forth other path)
  by_cases isComplete : Complete described repo
  · refine .inl ⟨isComplete, complete.mp isComplete, ?_⟩
    refine @alike_of_related described described' repo repo (fun left right => left = right ∧
      ReflTransGen (Binds described) repo left) ?_ ⟨rfl, .refl⟩
    rintro left _ ⟨rfl, path⟩
    obtain ⟨⟨desc, nameMapping⟩, found⟩ := isSome_iff_exists.mp (isComplete left path)
    refine ⟨desc, nameMapping, nameMapping, found, (same left path).trans found, fun symbol => ?_⟩
    refine rel_of (fun target step => ?_) fun target step => isSome_of_eq_some step
    exact ⟨target, step, rfl, path.tail ⟨desc, nameMapping, symbol, found, step⟩⟩
  · exact .inr ⟨isComplete, mt complete.mpr isComplete⟩

theorem harmless_setInfo {info : RepositoryInfo Precomputed}
    (unreached : ∀ other data, other ≠ repo → find other config.repos = some data →
      data.key.isSome → ¬ReflTransGen (Binds (contentFixed config)) other repo) :
    Harmless config (setInfo config repo info) := by
  intro other data found kept
  rw [show find other (setInfo config repo info).repos = _ from find_insert other repo _ _] at found
  by_cases same : repo = other
  · rw [if_pos same, some.injEq] at found
    rw [← found] at kept
    cases kept
  · rw [if_neg same] at found
    refine sameGraph_of_unreached fun query path => ?_
    have apart : repo ≠ query := by
      rintro rfl
      exact unreached other data (fun equal => same equal.symm) found kept path
    rw [contentFixed, contentFixed,
      show find query (setInfo config repo info).repos = _ from find_insert query repo _ _,
      if_neg apart]

end Unreached

section Updates

/-- What an update leaves: nothing has changed, or the map of duplicates is reset and some keys are.
-/
def Resets (config next : RepositoryConfig Precomputed Digest) : Prop :=
  next = config ∨ (next.duplicates = none ∧ ∀ {repo data key}, find repo next.repos = some data →
    data.key = some key → ∃ former, find repo config.repos = some former ∧ former.key = some key)

theorem Resets.trans {last : RepositoryConfig Precomputed Digest} (first : Resets config next)
    (second : Resets next last) : Resets config last := by
  cases second with
  | inl same => exact same ▸ first
  | inr second =>
    refine .inr ⟨second.1, fun found kept => ?_⟩
    obtain ⟨data, found, kept⟩ := second.2 found kept
    cases first with
    | inl same => exact same ▸ ⟨data, found, kept⟩
    | inr first => exact first.2 found kept

theorem resets_setInfo (info : RepositoryInfo Precomputed) :
    Resets config (setInfo config repo info) := by
  refine .inr ⟨rfl, fun {other data key} found kept => ?_⟩
  rw [show find other (setInfo config repo info).repos = _ from find_insert other repo _ _] at found
  by_cases same : repo = other
  · rw [if_pos same, some.injEq] at found
    rw [← found] at kept
    cases kept
  · rw [if_neg same] at found
    exact ⟨data, found, kept⟩

theorem resets_setPrecomputedRoot [DecidableEq Precomputed] (orders : Orders Precomputed Digest)
    (root : Precomputed) (value : FileRoot Precomputed) :
    Resets config (setPrecomputedRoot config orders root value) := by
  rw [setPrecomputedRoot]
  generalize (orders.repos.arrange config.repos).map fst = names
  induction names generalizing config with
  | nil => exact .inl rfl
  | cons name names step =>
    refine Resets.trans ?_ step
    rw [setPrecomputedRootOf]
    cases find name config.repos with
    | none => exact .inl rfl
    | some data =>
      simp only
      split
      · exact resets_setInfo _
      · exact .inl rfl

/-- The orders in which the lists are. -/
def givenOrders : Orders Precomputed Digest where
  repos := ⟨id, fun _ => .refl _⟩
  buckets := listOrders.buckets
  states := listOrders.states
  keys := listOrders.keys

theorem coherent_of_harmless (collisionFree : CollisionFree Precomputed contentId)
    (coherent : Coherent storeBlob config) (resets : Resets config next)
    (harmless : Harmless config next) : Coherent storeBlob next := by
  cases resets with
  | inl same => exact same ▸ coherent
  | inr resets =>
    constructor
    · intro duplicates present
      rw [resets.1] at present
      cases present
    · intro repo data key found kept
      obtain ⟨former, found', kept'⟩ := resets.2 found kept
      have isKey := coherent.keys found' kept'
      have regular := regular_contentFixed config
      cases harmless repo data found (isSome_of_eq_some kept) with
      | inl alike =>
        obtain ⟨duplicates, -, merges⟩ := computeDuplicates_merges next givenOrders collisionFree
        exact isKey.of_alike regular (regular_contentFixed next) merges alike
      | inr incomplete =>
        cases isKey with
        | absent _ => exact .absent incomplete.2
        | stored merges isGraph => exact absurd (isGraph.complete regular merges) incomplete.1

/-- The configurations that are reached by calls whose updates are all harmless. -/
inductive Reached [DecidableEq Precomputed] (contentId : Fields → Str)
    (storeBlob : JsonValue → Option Digest) : RepositoryConfig Precomputed Digest → Prop where
  | empty : Reached contentId storeBlob { repos := [], ordered := .nil, duplicates := none }
  | setInfo {config : RepositoryConfig Precomputed Digest} {repo : Str}
    {info : RepositoryInfo Precomputed} (before : Reached contentId storeBlob config)
    (harmless : Harmless config (setInfo config repo info)) :
    Reached contentId storeBlob (setInfo config repo info)
  | setPrecomputedRoot {config : RepositoryConfig Precomputed Digest}
    {orders : Orders Precomputed Digest} {root : Precomputed} {value : FileRoot Precomputed}
    (before : Reached contentId storeBlob config)
    (harmless : Harmless config (setPrecomputedRoot config orders root value)) :
    Reached contentId storeBlob (setPrecomputedRoot config orders root value)
  | repositoryKey {config next : RepositoryConfig Precomputed Digest}
    {orders : Orders Precomputed Digest} {repo : Str} {key : Option Digest}
    (before : Reached contentId storeBlob config)
    (asked : repositoryKey config contentId storeBlob orders repo = some (key, next)) :
    Reached contentId storeBlob next

theorem Reached.coherent [DecidableEq Precomputed]
    (collisionFree : CollisionFree Precomputed contentId)
    (reached : Reached contentId storeBlob config) : Coherent storeBlob config := by
  induction reached with
  | empty =>
    refine coherent_of_nothing rfl fun {repo data} found => ?_
    cases found
  | setInfo _ harmless coherent =>
    exact coherent_of_harmless collisionFree coherent (resets_setInfo _) harmless
  | setPrecomputedRoot _ harmless coherent =>
    exact coherent_of_harmless collisionFree coherent (resets_setPrecomputedRoot _ _ _) harmless
  | @repositoryKey config next orders repo key _ asked coherent =>
    obtain ⟨_, _, returned, -, coherentNext, -⟩ :=
      repositoryKey_spec collisionFree coherent orders repo
    rw [asked, some.injEq, Prod.mk.injEq] at returned
    exact returned.2 ▸ coherentNext

/-- The data of a repository without its key. -/
def withoutKey (data : RepositoryData Precomputed Digest) : RepositoryData Precomputed Digest :=
  { data with key := none }

/-- A configuration with the same repositories in which nothing has been computed. -/
def fresh (config : RepositoryConfig Precomputed Digest) : RepositoryConfig Precomputed Digest where
  repos := config.repos.map fun entry => (entry.1, withoutKey entry.2)
  ordered := mapValues_ascending withoutKey config.ordered
  duplicates := none

theorem coherent_fresh (config : RepositoryConfig Precomputed Digest) :
    Coherent storeBlob (fresh config) := by
  refine coherent_of_nothing rfl fun {repo data} found => ?_
  rw [show find repo (fresh config).repos = _ from find_mapValues withoutKey repo _] at found
  obtain ⟨data, -, rfl⟩ := map_eq_some_iff.mp found
  rfl

theorem sameInfos_fresh (config : RepositoryConfig Precomputed Digest) :
    SameInfos config (fresh config) := by
  intro repo
  rw [show find repo (fresh config).repos = _ from find_mapValues withoutKey repo _, Option.map_map]
  rfl

/-- After calls whose updates are all harmless, `RepositoryKey` returns for every repository what it
returns when nothing has been computed. -/
theorem repositoryKey_fresh [DecidableEq Precomputed]
    (collisionFree : CollisionFree Precomputed contentId)
    (reached : Reached contentId storeBlob config) (orders orders' : Orders Precomputed Digest)
    (repo : Str) : ∃ key next last,
      repositoryKey config contentId storeBlob orders repo = some (key, next) ∧
      repositoryKey (fresh config) contentId storeBlob orders' repo = some (key, last) := by
  obtain ⟨key, next, returned, isKey, -⟩ :=
    repositoryKey_spec collisionFree (reached.coherent collisionFree) orders repo
  obtain ⟨key', last, returned', isKey', -⟩ :=
    repositoryKey_spec collisionFree (coherent_fresh config) orders' repo
  rw [contentFixed_of_sameInfos (sameInfos_fresh config)] at isKey'
  exact ⟨key, next, last, returned, isKey.unique (regular_contentFixed config) isKey' ▸ returned'⟩

end Updates

section Example

theorem nothing_ascending : Ascending ([] : Transitions) := .nil

theorem binding_ascending : Ascending ([([120], [98])] : Transitions) := pairwise_singleton _ _

/-- A repository that binds another one. -/
def bindingRepository : RepositoryConfig Unit JsonValue :=
  setInfo (setInfo noRepositories [97] (simpleInfo [1] [([120], [98])] binding_ascending))
    [98] (simpleInfo [2] [] nothing_ascending)

/-- The repository that is bound gets other roots. -/
def changeBound (config : RepositoryConfig Unit JsonValue) : RepositoryConfig Unit JsonValue :=
  setInfo config [98] (simpleInfo [3] [] nothing_ascending)

mutual

/-- All texts in a JSON value. -/
def texts : JsonValue → Str
  | .string text => text
  | .array items => textsOfItems items
  | .object fields => textsOfFields fields
  | _ => []

/-- All texts in the items of an array. -/
def textsOfItems : List JsonValue → Str
  | [] => []
  | item :: items => texts item ++ textsOfItems items

/-- All texts in the fields of an object. -/
def textsOfFields : List (Str × JsonValue) → Str
  | [] => []
  | (name, value) :: fields => name ++ texts value ++ textsOfFields fields

end

/-- The keys of the binding repository after a query and the change, and without the query. -/
def keysAfterChange : Option (Option JsonValue × Option JsonValue) := do
  let asked ← repositoryKey bindingRepository descriptionText some listOrders [97]
  let again ← repositoryKey (changeBound asked.2) descriptionText some listOrders [97]
  let first ← repositoryKey (fresh (changeBound asked.2)) descriptionText some listOrders [97]
  return (again.1, first.1)

theorem key_stale : ∃ key stored next last stale key',
    repositoryKey bindingRepository descriptionText some listOrders [97] = some (key, stored) ∧
    repositoryKey (changeBound stored) descriptionText some listOrders [97] = some (stale, next) ∧
    repositoryKey (fresh (changeBound stored)) descriptionText some listOrders [97] =
      some (key', last) ∧ stale ≠ key' := by
  have differ : keysAfterChange.map
      (fun keys => decide (keys.1.map texts = keys.2.map texts)) = some false := by
    decide +kernel
  obtain ⟨⟨stale, key'⟩, computed, apart⟩ := map_eq_some_iff.mp differ
  simp only [keysAfterChange, bind_eq_bind, bind_eq_some_iff, pure_def,
    some.injEq, Prod.mk.injEq] at computed
  obtain ⟨⟨key, stored⟩, first, ⟨_, next⟩, second, ⟨_, last⟩, third, rfl, rfl⟩ := computed
  refine ⟨key, stored, next, last, _, _, first, second, third, fun same => ?_⟩
  rw [same] at apart
  simp only [decide_true] at apart
  cases apart

theorem reached_bindingRepository : Reached descriptionText some bindingRepository := by
  have none : ∀ {config next : RepositoryConfig Unit JsonValue},
      (∀ {repo data}, find repo next.repos = some data → data.key = none) → Harmless config next := by
    intro config next noKeys repo data found kept
    rw [noKeys found] at kept
    cases kept
  exact .setInfo (.setInfo .empty (none (setInfo_fresh noRepositories_fresh)))
    (none (setInfo_fresh (setInfo_fresh noRepositories_fresh)))

theorem bound_unreached {config : RepositoryConfig Unit JsonValue}
    (same : SameInfos bindingRepository config) : ∀ other data, other ≠ [97] →
      find other config.repos = some data → data.key.isSome →
        ¬ReflTransGen (Binds (contentFixed config)) other [97] := by
  intro other data apart found _ path
  rw [contentFixed_of_sameInfos same] at path
  cases path.cases_head with
  | inl equal => exact apart equal
  | inr first =>
    obtain ⟨_, ⟨desc, nameMapping, symbol, described, target⟩, -⟩ := first
    obtain ⟨stored, inside, -, rfl⟩ := (contentFixed_eq_some _).mp described
    have entry := mem_of_find inside
    have entries : ∀ entry ∈ bindingRepository.repos,
        entry.1 = [97] ∨ entry.2.info.nameMapping = [] := by decide
    cases entries _ entry with
    | inl equal => exact apart equal
    | inr nothing =>
      rw [nothing] at target
      cases target

theorem keys_after_reset : ∃ asked stored key next last,
    repositoryKey bindingRepository descriptionText some listOrders [97] = some (asked, stored) ∧
    repositoryKey (setInfo stored [97] (simpleInfo [3] [] .nil)) descriptionText some listOrders
      [97] = some (key, next) ∧
    repositoryKey (fresh (setInfo stored [97] (simpleInfo [3] [] .nil))) descriptionText some
      listOrders [97] = some (key, last) := by
  obtain ⟨asked, stored, returned, -, -, same⟩ :=
    repositoryKey_spec (collisionFree_descriptionText Unit)
      (reached_bindingRepository.coherent (collisionFree_descriptionText Unit)) listOrders [97]
  obtain ⟨key, next, last, again, first⟩ :=
    repositoryKey_fresh (collisionFree_descriptionText Unit)
      (.setInfo (.repositoryKey reached_bindingRepository returned)
        (harmless_setInfo (bound_unreached same))) listOrders listOrders [97]
  exact ⟨asked, stored, key, next, last, returned, again, first⟩

end Example

end Jst.Verif.RepositoryKeyUpdates
