import Mathlib.Logic.Relation
import Jst.Common.RepositoryConfig
import Jst.Verif.Minimization
/-!
# Repository keys are canonical

The graph that is stored for a repository numbers the repositories in the order in which they are
first reached, and repositories that are merged have one number. Bisimilar repositories are numbered
alike, also in different configurations, and from the graph the bindings are read back up to
bisimilarity.
-/
namespace Jst.Verif.RepositoryKeys

open Jst.SortedMap Jst.DfaMinimizer Jst.Bisimulation Jst.Repositories Jst.Number
open Option (Rel isSome_some)

variable {graph : Fields}

/-- The descriptions and bindings of the repositories that are there and content-fixed. -/
abbrev Described := Str → Option (Fields × Transitions)

/-- The bindings of the repositories of all configurations, by global name. -/
def system : System (Described × Str) Str (Option Fields) where
  label := fun state => (state.1 state.2).map fst
  next := fun state symbol =>
    (state.1 state.2).bind fun data => (find symbol data.2).map fun target => (state.1, target)

/-- A repository binds another one. -/
def Binds (described : Described) (repo other : Str) : Prop :=
  ∃ desc nameMapping symbol,
    described repo = some (desc, nameMapping) ∧ find symbol nameMapping = some other

/-- Every repository that is reached through bindings is there and content-fixed. -/
def Complete (described : Described) (repo : Str) : Prop :=
  ∀ other, Relation.ReflTransGen (Binds described) repo other → (described other).isSome

/-- What is known of all descriptions and bindings. -/
structure Regular (described : Described) : Prop where
  ordered : ∀ {repo desc nameMapping}, described repo = some (desc, nameMapping) →
    Ascending nameMapping
  first : ∀ {repo desc nameMapping}, described repo = some (desc, nameMapping) →
    ∀ bindings, insert (lit "bindings") bindings desc = (lit "bindings", bindings) :: desc

variable {described described' : Described} {repo repo' other other' : Str}

section Reaching

theorem Complete.isSome (complete : Complete described repo) : (described repo).isSome :=
  complete repo .refl

theorem Complete.binds (complete : Complete described repo) (binds : Binds described repo other) :
    Complete described other := fun last reached => complete last (.head binds reached)

theorem complete_of_closed {inside : Str → Prop}
    (there : ∀ repo, inside repo → (described repo).isSome)
    (closed : ∀ repo other, inside repo → Binds described repo other → inside other)
    (member : inside repo) : Complete described repo := by
  have reached : ∀ other, Relation.ReflTransGen (Binds described) repo other → inside other := by
    intro other path
    induction path with
    | refl => exact member
    | tail _ binds step => exact closed _ _ step binds
  exact fun other path => there other (reached other path)

/-- Repositories that are complete and bisimilar. -/
structure Alike (described described' : Described) (repo repo' : Str) : Prop where
  complete : Complete described repo
  complete' : Complete described' repo'
  bisimilar : Bisimilar system (described, repo) (described', repo')

theorem Alike.symm (alike : Alike described described' repo repo') :
    Alike described' described repo' repo :=
  ⟨alike.complete', alike.complete, alike.bisimilar.symm⟩

theorem Alike.data (alike : Alike described described' repo repo') :
    ∃ desc nameMapping nameMapping', described repo = some (desc, nameMapping) ∧
      described' repo' = some (desc, nameMapping') ∧ ∀ symbol, Rel (Alike described described')
        (find symbol nameMapping) (find symbol nameMapping') := by
  obtain ⟨⟨desc, nameMapping⟩, found⟩ := isSome_iff_exists.mp alike.complete.isSome
  obtain ⟨⟨desc', nameMapping'⟩, found'⟩ := isSome_iff_exists.mp alike.complete'.isSome
  have label := alike.bisimilar.label
  simp only [system, found, found', map_some, some.injEq] at label
  subst label
  refine ⟨desc, nameMapping, nameMapping', found, found', fun symbol => ?_⟩
  have inside := (bisimilar_isBisimulation system _ _ alike.bisimilar).2 symbol
  simp only [system, found, found', bind_some] at inside
  refine rel_of (fun target step => ?_) fun target' step' => ?_
  · rw [step, map_some] at inside
    obtain ⟨state, step', bisimilar⟩ := exists_right inside rfl
    obtain ⟨target', found'', rfl⟩ := map_eq_some_iff.mp step'
    exact ⟨target', found'', alike.complete.binds ⟨desc, nameMapping, symbol, found, step⟩,
      alike.complete'.binds ⟨desc, nameMapping', symbol, found', found''⟩, bisimilar⟩
  · rw [step', map_some] at inside
    obtain ⟨state, step, -⟩ := exists_left inside rfl
    obtain ⟨target, step, -⟩ := map_eq_some_iff.mp step
    exact isSome_of_eq_some step

theorem alike_of_related {related : Str → Str → Prop}
    (keeps : ∀ repo repo', related repo repo' → ∃ desc nameMapping nameMapping',
      described repo = some (desc, nameMapping) ∧ described' repo' = some (desc, nameMapping') ∧
      ∀ symbol, Rel related (find symbol nameMapping) (find symbol nameMapping'))
    (holds : related repo repo') : Bisimilar system (described, repo) (described', repo') := by
  refine ⟨fun left right => left.1 = described ∧ right.1 = described' ∧ related left.2 right.2, ?_,
    rfl, rfl, holds⟩
  rintro ⟨_, repo⟩ ⟨_, repo'⟩ ⟨rfl, rfl, holds⟩
  obtain ⟨desc, nameMapping, nameMapping', found, found', targets⟩ := keeps _ _ holds
  simp only at found found'
  refine ⟨by simp only [system, found, found', map_some], fun symbol => ?_⟩
  simp only [system, found, found', bind_some]
  refine rel_of (fun state step => ?_) fun state' step' => ?_
  · obtain ⟨target, inside, rfl⟩ := map_eq_some_iff.mp step
    obtain ⟨target', inside', holds⟩ := exists_right (targets symbol) inside
    rw [inside', map_some]
    exact ⟨_, rfl, rfl, rfl, holds⟩
  · obtain ⟨target', inside', rfl⟩ := map_eq_some_iff.mp step'
    obtain ⟨target, inside, -⟩ := exists_left (targets symbol) inside'
    rw [inside, map_some, isSome_some]

end Reaching

section Merging

variable {duplicates duplicates' : List (Str × Str)}

/-- What is known of the map of duplicates: repositories that are sent to one have the same
description, and what they bind is sent to one, too; those that are alike are sent to one. -/
structure Merges (described : Described) (duplicates : List (Str × Str)) : Prop where
  missing : ∀ {repo}, described repo = none → deduplicateRepo duplicates repo = repo
  data : ∀ {repo desc nameMapping}, described repo = some (desc, nameMapping) →
    ∃ nameMapping', described (deduplicateRepo duplicates repo) = some (desc, nameMapping') ∧
      ∀ symbol, Rel
        (fun target target' => deduplicateRepo duplicates target = deduplicateRepo duplicates target')
        (find symbol nameMapping) (find symbol nameMapping')
  idempotent : ∀ repo, deduplicateRepo duplicates (deduplicateRepo duplicates repo) =
    deduplicateRepo duplicates repo
  merged : ∀ {repo other}, Alike described described repo other →
    deduplicateRepo duplicates repo = deduplicateRepo duplicates other

variable (merges : Merges described duplicates)

include merges

theorem Merges.isSome_iff (repo : Str) :
    (described (deduplicateRepo duplicates repo)).isSome ↔ (described repo).isSome := by
  cases found : described repo with
  | none => rw [merges.missing found, found]
  | some data =>
    obtain ⟨desc, nameMapping⟩ := data
    obtain ⟨nameMapping', found', -⟩ := merges.data found
    simp only [found', isSome_some]

theorem Merges.same_data (there : (described repo).isSome)
    (same : deduplicateRepo duplicates repo = deduplicateRepo duplicates other) :
    ∃ desc nameMapping nameMapping', described repo = some (desc, nameMapping) ∧
      described other = some (desc, nameMapping') ∧ ∀ symbol, Rel
        (fun target target' => deduplicateRepo duplicates target = deduplicateRepo duplicates target')
        (find symbol nameMapping) (find symbol nameMapping') := by
  have there' : (described other).isSome := by
    rw [← merges.isSome_iff, ← same, merges.isSome_iff]
    exact there
  obtain ⟨⟨desc, nameMapping⟩, found⟩ := isSome_iff_exists.mp there
  obtain ⟨⟨desc', nameMapping'⟩, found'⟩ := isSome_iff_exists.mp there'
  obtain ⟨middle, foundMiddle, targets⟩ := merges.data found
  obtain ⟨middle', foundMiddle', targets'⟩ := merges.data found'
  rw [same, foundMiddle', some.injEq, Prod.mk.injEq] at foundMiddle
  obtain ⟨rfl, rfl⟩ := foundMiddle
  refine ⟨_, nameMapping, nameMapping', found, found', fun symbol => ?_⟩
  refine rel_of (fun target step => ?_) fun target' step' => ?_
  · obtain ⟨between, stepMiddle, first⟩ := exists_right (targets symbol) step
    obtain ⟨target', step', second⟩ := exists_left (targets' symbol) stepMiddle
    exact ⟨target', step', first.trans second.symm⟩
  · obtain ⟨between, stepMiddle, -⟩ := exists_right (targets' symbol) step'
    obtain ⟨target, step, -⟩ := exists_left (targets symbol) stepMiddle
    exact isSome_of_eq_some step

theorem Merges.complete_of_same (complete : Complete described repo)
    (same : deduplicateRepo duplicates repo = deduplicateRepo duplicates other) :
    Complete described other := by
  have there : ∀ {repo other}, Complete described repo →
      deduplicateRepo duplicates repo = deduplicateRepo duplicates other →
      (described other).isSome := by
    intro repo other complete same
    rw [← merges.isSome_iff, ← same, merges.isSome_iff]
    exact complete.isSome
  refine @complete_of_closed described other (fun other => ∃ repo, Complete described repo ∧
    deduplicateRepo duplicates repo = deduplicateRepo duplicates other) ?_ ?_ ⟨repo, complete, same⟩
  · rintro other ⟨repo, complete, same⟩
    exact there complete same
  · rintro other target ⟨repo, complete, same⟩ ⟨desc, nameMapping, symbol, found, step⟩
    obtain ⟨_, origin, _, foundOrigin, foundOther, targets⟩ := merges.same_data complete.isSome same
    rw [found] at foundOther
    cases foundOther
    obtain ⟨target', step', same'⟩ := exists_left (targets symbol) step
    exact ⟨target', complete.binds ⟨_, origin, symbol, foundOrigin, step'⟩, same'⟩

theorem Merges.same_iff (complete : Complete described repo) :
    deduplicateRepo duplicates repo = deduplicateRepo duplicates other ↔
      Alike described described repo other := by
  constructor
  · intro same
    refine ⟨complete, merges.complete_of_same complete same, ?_⟩
    refine @alike_of_related described described repo other (fun repo other =>
      Complete described repo ∧
        deduplicateRepo duplicates repo = deduplicateRepo duplicates other) ?_ ⟨complete, same⟩
    rintro repo other ⟨complete, same⟩
    obtain ⟨desc, nameMapping, nameMapping', found, found', targets⟩ :=
      merges.same_data complete.isSome same
    refine ⟨desc, nameMapping, nameMapping', found, found', fun symbol => ?_⟩
    refine rel_of (fun target step => ?_) fun target' step' => ?_
    · obtain ⟨target', step', same'⟩ := exists_right (targets symbol) step
      exact ⟨target', step', complete.binds ⟨desc, nameMapping, symbol, found, step⟩, same'⟩
    · obtain ⟨target, step, -⟩ := exists_left (targets symbol) step'
      exact isSome_of_eq_some step
  · exact merges.merged

theorem Merges.alike_self (complete : Complete described repo) :
    Alike described described repo (deduplicateRepo duplicates repo) :=
  (merges.same_iff complete).mp (merges.idempotent repo).symm

end Merging

section Running

variable {duplicates duplicates' : List (Str × Str)}

variable {numbering : Numbering}

/-- The ids of a numbering stay. -/
def Grows (numbering next : Numbering) : Prop :=
  ∀ {repo id}, find repo numbering.repoIds = some id → find repo next.repoIds = some id

/-- The number of known repositories that have no id yet. -/
def remaining (known : List Str) (numbering : Numbering) : Nat :=
  known.countP fun repo => (find repo numbering.repoIds).isNone

theorem remaining_le (known : List Str) {next : Numbering} (grows : Grows numbering next) :
    remaining known next ≤ remaining known numbering := by
  refine List.countP_mono_left fun repo _ missing => ?_
  cases found : find repo numbering.repoIds with
  | none => rfl
  | some id =>
    rw [grows found] at missing
    cases missing

/-- A numbering in which a repository has got the next id. -/
def withId (numbering : Numbering) (repo : Str) : Numbering where
  graph := numbering.graph
  idCounter := numbering.idCounter + 1
  repoIds := emplace repo (decimal numbering.idCounter) numbering.repoIds

theorem find_withId (fresh : find repo numbering.repoIds = none) (query : Str) :
    find query (withId numbering repo).repoIds =
      if repo = query then some (decimal numbering.idCounter)
      else find query numbering.repoIds := by
  show find query (emplace repo _ numbering.repoIds) = _
  rw [emplace, fresh]
  by_cases same : repo = query
  · rw [find_insert, if_pos same, if_pos same]
  · rw [find_insert, if_neg same, if_neg same]

theorem grows_withId (fresh : find repo numbering.repoIds = none) :
    Grows numbering (withId numbering repo) := by
  intro query id found
  rw [find_withId fresh, if_neg, found]
  intro same
  rw [← same, fresh] at found
  cases found

theorem remaining_withId {known : List Str} (fresh : find repo numbering.repoIds = none)
    (member : repo ∈ known) :
    remaining known (withId numbering repo) < remaining known numbering := by
  refine Loops.countP_lt (fun query missing => ?_) member ?_ ?_
  · cases found : find query numbering.repoIds with
    | none => rfl
    | some id =>
      rw [grows_withId fresh found] at missing
      cases missing
  · rw [fresh]
    rfl
  · rw [find_withId fresh, if_pos rfl]
    rfl

/-- A numbering in which a description stands under an id. -/
def withEntry (numbering : Numbering) (id : Str) (value : JsonValue) : Numbering where
  graph := insert id value numbering.graph
  idCounter := numbering.idCounter
  repoIds := numbering.repoIds

theorem addToGraphAndGetId_succ (depth : Nat) (numbering : Numbering) (repo : Str) :
    addToGraphAndGetId described duplicates (depth + 1) numbering repo =
      match find (deduplicateRepo duplicates repo) numbering.repoIds with
      | some id => .ok (id, numbering)
      | none =>
        match described (deduplicateRepo duplicates repo) with
        | none => .error .unfixed
        | some (desc, nameMapping) =>
          match addBindings (addToGraphAndGetId described duplicates depth) nameMapping []
            (withId numbering (deduplicateRepo duplicates repo)) with
          | .ok (bindings, next) => .ok (decimal numbering.idCounter,
              withEntry next (decimal numbering.idCounter) (withBindings desc bindings))
          | .error abort => .error abort := by
  rw [addToGraphAndGetId]
  cases find (deduplicateRepo duplicates repo) numbering.repoIds with
  | some id => rfl
  | none =>
    cases described (deduplicateRepo duplicates repo) with
    | none => rfl
    | some data =>
      obtain ⟨desc, nameMapping⟩ := data
      simp only
      show (addBindings (addToGraphAndGetId described duplicates depth) nameMapping []
        (withId numbering (deduplicateRepo duplicates repo)) >>= fun result => .ok
          (decimal numbering.idCounter,
            withEntry result.2 (decimal numbering.idCounter) (withBindings desc result.1))) = _
      cases addBindings (addToGraphAndGetId described duplicates depth) nameMapping []
          (withId numbering (deduplicateRepo duplicates repo)) with
      | ok result => rfl
      | error abort => rfl

/-- One call of `AddToGraphAndGetId`, by what it does with a repository. -/
inductive Added (described : Described) (duplicates : List (Str × Str)) (depth : Nat)
    (numbering : Numbering) (repo : Str) : Except Abort (Str × Numbering) → Prop where
  | known {id : Str} (found : find (deduplicateRepo duplicates repo) numbering.repoIds = some id) :
    Added described duplicates depth numbering repo (.ok (id, numbering))
  | unfixed (fresh : find (deduplicateRepo duplicates repo) numbering.repoIds = none)
    (missing : described (deduplicateRepo duplicates repo) = none) :
    Added described duplicates depth numbering repo (.error .unfixed)
  | added {desc bindings : Fields} {nameMapping : Transitions} {next : Numbering}
    (fresh : find (deduplicateRepo duplicates repo) numbering.repoIds = none)
    (found : described (deduplicateRepo duplicates repo) = some (desc, nameMapping))
    (bound : addBindings (addToGraphAndGetId described duplicates depth) nameMapping []
      (withId numbering (deduplicateRepo duplicates repo)) = .ok (bindings, next)) :
    Added described duplicates depth numbering repo (.ok (decimal numbering.idCounter,
      withEntry next (decimal numbering.idCounter) (withBindings desc bindings)))
  | aborted {desc : Fields} {nameMapping : Transitions} {abort : Abort}
    (fresh : find (deduplicateRepo duplicates repo) numbering.repoIds = none)
    (found : described (deduplicateRepo duplicates repo) = some (desc, nameMapping))
    (bound : addBindings (addToGraphAndGetId described duplicates depth) nameMapping []
      (withId numbering (deduplicateRepo duplicates repo)) = .error abort) :
    Added described duplicates depth numbering repo (.error abort)

theorem addToGraphAndGetId_added (depth : Nat) (numbering : Numbering) (repo : Str) :
    Added described duplicates depth numbering repo
      (addToGraphAndGetId described duplicates (depth + 1) numbering repo) := by
  rw [addToGraphAndGetId_succ]
  cases fresh : find (deduplicateRepo duplicates repo) numbering.repoIds with
  | some id => exact .known fresh
  | none =>
    cases found : described (deduplicateRepo duplicates repo) with
    | none => exact .unfixed fresh found
    | some data =>
      simp only
      cases bound : addBindings (addToGraphAndGetId described duplicates depth) data.2 []
          (withId numbering (deduplicateRepo duplicates repo)) with
      | ok result => exact .added fresh found bound
      | error abort => exact .aborted fresh found bound

end Running

section Depth

variable {duplicates : List (Str × Str)} {add add' : Numbering → Str → Except Abort (Str × Numbering)}

variable {numbering : Numbering}

theorem addBindings_cons (add : Numbering → Str → Except Abort (Str × Numbering)) (symbol target : Str)
    (rest : Transitions) (bindings : Fields) (numbering : Numbering) :
    addBindings add ((symbol, target) :: rest) bindings numbering = match add numbering target with
      | .ok (id, next) => addBindings add rest (insert symbol (.string id) bindings) next
      | .error abort => .error abort := by
  rw [addBindings]
  cases add numbering target with
  | ok result => rfl
  | error abort => rfl

theorem addBindings_mono (agree : ∀ numbering repo, add numbering repo ≠ .error .depth →
      add' numbering repo = add numbering repo) {nameMapping : Transitions} {bindings : Fields}
    (enough : addBindings add nameMapping bindings numbering ≠ .error .depth) :
    addBindings add' nameMapping bindings numbering =
      addBindings add nameMapping bindings numbering := by
  induction nameMapping generalizing bindings numbering with
  | nil => rfl
  | cons entry rest step =>
    obtain ⟨symbol, target⟩ := entry
    rw [addBindings_cons] at enough ⊢
    rw [addBindings_cons]
    have here : add numbering target ≠ .error .depth := by
      intro cut
      rw [cut] at enough
      exact enough rfl
    rw [agree numbering target here]
    cases called : add numbering target with
    | error abort => rfl
    | ok result =>
      rw [called] at enough
      exact step enough

theorem addToGraphAndGetId_mono {depth : Nat}
    (enough : addToGraphAndGetId described duplicates depth numbering repo ≠ .error .depth) :
    addToGraphAndGetId described duplicates (depth + 1) numbering repo =
      addToGraphAndGetId described duplicates depth numbering repo := by
  induction depth generalizing numbering repo with
  | zero => exact absurd rfl enough
  | succ depth step =>
    have loop : ∀ {nameMapping numbering},
        addBindings (addToGraphAndGetId described duplicates depth) nameMapping [] numbering ≠
          .error .depth →
        addBindings (addToGraphAndGetId described duplicates (depth + 1)) nameMapping [] numbering =
          addBindings (addToGraphAndGetId described duplicates depth) nameMapping [] numbering :=
      addBindings_mono fun _ _ => step
    rw [addToGraphAndGetId_succ] at enough
    rw [addToGraphAndGetId_succ, addToGraphAndGetId_succ]
    cases fresh : find (deduplicateRepo duplicates repo) numbering.repoIds with
    | some id => rfl
    | none =>
      cases found : described (deduplicateRepo duplicates repo) with
      | none => rfl
      | some data =>
        rw [fresh, found] at enough
        simp only at enough ⊢
        rw [loop]
        intro cut
        rw [cut] at enough
        exact enough rfl

theorem addToGraphAndGetId_depth {depth more : Nat} (deeper : depth ≤ more)
    (enough : addToGraphAndGetId described duplicates depth numbering repo ≠ .error .depth) :
    addToGraphAndGetId described duplicates more numbering repo =
      addToGraphAndGetId described duplicates depth numbering repo := by
  induction deeper with
  | refl => rfl
  | step _ same => rw [addToGraphAndGetId_mono (same ▸ enough), same]

end Depth

section Validity

variable {duplicates : List (Str × Str)} {add : Numbering → Str → Except Abort (Str × Numbering)}
  {numbering next last : Numbering} {pending : List Str}

variable {nameMapping : Transitions} {bindings : Fields}

/-- The bindings of a description are the ids of what is bound. -/
def Names (duplicates : List (Str × Str)) (numbering : Numbering) (nameMapping : Transitions)
    (bindings : Fields) : Prop :=
  ∀ symbol, Rel
    (fun target value => ∃ id,
      find (deduplicateRepo duplicates target) numbering.repoIds = some id ∧ value = Json.string id)
    (find symbol nameMapping) (find symbol bindings)

/-- The description of a repository stands in the graph under an id. -/
def Listed (described : Described) (duplicates : List (Str × Str)) (numbering : Numbering)
    (repo id : Str) : Prop :=
  ∃ desc nameMapping bindings, described repo = some (desc, nameMapping) ∧
    find id numbering.graph = some (withBindings desc bindings) ∧
    Names duplicates numbering nameMapping bindings

/-- Ids are different numbers below the counter, and every repository with an id is described in the
graph, apart from those whose bindings are being added. -/
structure Valid (described : Described) (duplicates : List (Str × Str)) (pending : List Str)
    (numbering : Numbering) : Prop where
  number : ∀ {repo id}, find repo numbering.repoIds = some id →
    ∃ number < numbering.idCounter, id = decimal number
  distinct : ∀ {repo other id}, find repo numbering.repoIds = some id →
    find other numbering.repoIds = some id → repo = other
  there : ∀ {repo id}, find repo numbering.repoIds = some id → (described repo).isSome
  listed : ∀ {repo id}, find repo numbering.repoIds = some id → repo ∉ pending →
    Listed described duplicates numbering repo id

theorem Names.grows (grows : Grows numbering next)
    (names : Names duplicates numbering nameMapping bindings) :
    Names duplicates next nameMapping bindings := by
  intro symbol
  refine rel_of (fun target step => ?_) fun value found => ?_
  · obtain ⟨value, found, id, known, same⟩ := exists_right (names symbol) step
    exact ⟨value, found, id, grows known, same⟩
  · obtain ⟨target, step, -⟩ := exists_left (names symbol) found
    exact isSome_of_eq_some step

/-- What a call does to a numbering. -/
structure Extends (described : Described) (duplicates : List (Str × Str)) (pending : List Str)
    (numbering next : Numbering) : Prop where
  valid : Valid described duplicates pending next
  grows : Grows numbering next

theorem addBindings_extends
    (call : ∀ {numbering target id next}, Valid described duplicates pending numbering →
      add numbering target = .ok (id, next) → Extends described duplicates pending numbering next ∧
        find (deduplicateRepo duplicates target) next.repoIds = some id) {bindings' : Fields}
    (ordered : Ascending nameMapping) (valid : Valid described duplicates pending numbering)
    (added : addBindings add nameMapping bindings numbering = .ok (bindings', next)) :
    Extends described duplicates pending numbering next ∧ ∀ symbol,
      match find symbol nameMapping with
      | some target => ∃ id, find (deduplicateRepo duplicates target) next.repoIds = some id ∧
          find symbol bindings' = some (.string id)
      | none => find symbol bindings' = find symbol bindings := by
  induction nameMapping generalizing bindings numbering with
  | nil =>
    cases added
    exact ⟨⟨valid, id⟩, fun _ => rfl⟩
  | cons entry rest step =>
    obtain ⟨name, target⟩ := entry
    obtain ⟨first, later⟩ := pairwise_cons.mp ordered
    rw [addBindings_cons] at added
    cases called : add numbering target with
    | error abort =>
      rw [called] at added
      cases added
    | ok result =>
      obtain ⟨id, middle⟩ := result
      rw [called] at added
      obtain ⟨here, known⟩ := call valid called
      obtain ⟨after, names⟩ := step later here.valid added
      refine ⟨⟨after.valid, fun found => after.grows (here.grows found)⟩, fun symbol => ?_⟩
      have inside := names symbol
      rw [find_cons]
      by_cases same : name = symbol
      · subst same
        rw [find_eq_none_of_lt first, find_insert, if_pos rfl] at inside
        rw [if_pos rfl]
        exact ⟨id, after.grows known, inside⟩
      · rw [find_insert, if_neg same] at inside
        rw [if_neg same]
        exact inside

theorem Valid.start (valid : Valid described duplicates pending numbering)
    (fresh : find repo numbering.repoIds = none) (there : (described repo).isSome) :
    Valid described duplicates (repo :: pending) (withId numbering repo) := by
  have old : ∀ {other id}, find other (withId numbering repo).repoIds = some id →
      (repo = other ∧ id = decimal numbering.idCounter) ∨
        (repo ≠ other ∧ find other numbering.repoIds = some id) := by
    intro other id found
    rw [find_withId fresh] at found
    by_cases same : repo = other
    · rw [if_pos same, some.injEq] at found
      exact .inl ⟨same, found.symm⟩
    · rw [if_neg same] at found
      exact .inr ⟨same, found⟩
  have new : ∀ {other}, find other numbering.repoIds ≠ some (decimal numbering.idCounter) := by
    intro other found
    obtain ⟨number, below, same⟩ := valid.number found
    exact absurd (decimal_injective same) (by omega)
  constructor
  · intro other id found
    cases old found with
    | inl isNew => exact ⟨numbering.idCounter, Nat.lt_succ_self _, isNew.2⟩
    | inr isOld =>
      obtain ⟨number, below, same⟩ := valid.number isOld.2
      exact ⟨number, Nat.lt_succ_of_lt below, same⟩
  · intro left right id foundLeft foundRight
    cases old foundLeft with
    | inl newLeft =>
      cases old foundRight with
      | inl newRight => rw [← newLeft.1, newRight.1]
      | inr oldRight => exact absurd (newLeft.2 ▸ oldRight.2) new
    | inr oldLeft =>
      cases old foundRight with
      | inl newRight => exact absurd (newRight.2 ▸ oldLeft.2) new
      | inr oldRight => exact valid.distinct oldLeft.2 oldRight.2
  · intro other id found
    cases old found with
    | inl isNew => exact isNew.1 ▸ there
    | inr isOld => exact valid.there isOld.2
  · intro other id found free
    rw [mem_cons, not_or] at free
    cases old found with
    | inl isNew => exact absurd isNew.1.symm free.1
    | inr isOld =>
      obtain ⟨desc, nameMapping, bindings, data, inGraph, names⟩ := valid.listed isOld.2 free.2
      exact ⟨desc, nameMapping, bindings, data, inGraph, names.grows (grows_withId fresh)⟩

theorem Valid.finish (valid : Valid described duplicates (repo :: pending) numbering) {id : Str}
    {desc : Fields} (known : find repo numbering.repoIds = some id)
    (found : described repo = some (desc, nameMapping))
    (names : Names duplicates numbering nameMapping bindings) :
    Valid described duplicates pending (withEntry numbering id (withBindings desc bindings)) := by
  refine ⟨valid.number, valid.distinct, valid.there, fun {other otherId} present free => ?_⟩
  by_cases same : repo = other
  · subst same
    have ids : id = otherId := some.inj (known.symm.trans present)
    subst ids
    refine ⟨desc, nameMapping, bindings, found, ?_, names⟩
    show find id (insert id _ numbering.graph) = _
    rw [find_insert, if_pos rfl]
  · have inside : other ∉ repo :: pending := by
      rw [mem_cons, not_or]
      exact ⟨fun equal => same equal.symm, free⟩
    obtain ⟨desc', nameMapping', bindings', data, inGraph, names'⟩ := valid.listed present inside
    refine ⟨desc', nameMapping', bindings', data, ?_, names'⟩
    show find otherId (insert id _ numbering.graph) = _
    rw [find_insert, if_neg, inGraph]
    intro equal
    exact same (valid.distinct known (equal ▸ present))

theorem addToGraphAndGetId_extends (regular : Regular described) {depth : Nat} {id : Str}
    (valid : Valid described duplicates pending numbering)
    (added : addToGraphAndGetId described duplicates depth numbering repo = .ok (id, next)) :
    Extends described duplicates pending numbering next ∧
      find (deduplicateRepo duplicates repo) next.repoIds = some id := by
  induction depth generalizing pending numbering repo id next with
  | zero => cases added
  | succ depth step =>
    have call := @addToGraphAndGetId_added described duplicates depth
      numbering repo
    rw [added] at call
    cases call with
    | known found => exact ⟨⟨valid, fun found => found⟩, found⟩
    | @added desc bindings nameMapping middle fresh found bound =>
      have start := valid.start fresh (isSome_of_eq_some found)
      obtain ⟨inside, names⟩ := addBindings_extends step (regular.ordered found) start bound
      have known := inside.grows ((find_withId fresh _).trans (if_pos rfl))
      refine ⟨⟨inside.valid.finish known found fun symbol => ?_, fun old =>
        inside.grows (grows_withId fresh old)⟩, known⟩
      have name := names symbol
      refine rel_of (fun target step => ?_) fun value step => ?_
      · rw [step] at name
        obtain ⟨id, known, bound⟩ := name
        exact ⟨.string id, bound, id, known, rfl⟩
      · cases target : find symbol nameMapping with
        | some target => rfl
        | none =>
          rw [target, step] at name
          cases name

end Validity

section Success

variable {duplicates : List (Str × Str)} {add : Numbering → Str → Except Abort (Str × Numbering)}
  {numbering next : Numbering} {pending : List Str}

theorem addBindings_enough {known : List Str} {bound : Nat}
    (call : ∀ {numbering target}, Valid described duplicates pending numbering →
      remaining known numbering < bound → add numbering target ≠ .error .depth)
    (keeps : ∀ {numbering target id next}, Valid described duplicates pending numbering →
      add numbering target = .ok (id, next) → Extends described duplicates pending numbering next)
    {nameMapping : Transitions} {bindings : Fields}
    (valid : Valid described duplicates pending numbering)
    (small : remaining known numbering < bound) :
    addBindings add nameMapping bindings numbering ≠ .error .depth := by
  induction nameMapping generalizing bindings numbering with
  | nil =>
    intro cut
    cases cut
  | cons entry rest step =>
    obtain ⟨symbol, target⟩ := entry
    rw [addBindings_cons]
    cases called : add numbering target with
    | error abort =>
      intro cut
      cases cut
      exact call valid small called
    | ok result =>
      have extended := keeps valid called
      exact step extended.valid (Nat.lt_of_le_of_lt (remaining_le known extended.grows) small)

theorem addToGraphAndGetId_enough (regular : Regular described) {known : List Str} {depth : Nat}
    (all : ∀ repo, (described repo).isSome → repo ∈ known)
    (valid : Valid described duplicates pending numbering)
    (small : remaining known numbering < depth) :
    addToGraphAndGetId described duplicates depth numbering repo ≠ .error .depth := by
  induction depth generalizing pending numbering repo with
  | zero => exact absurd small (Nat.not_lt_zero _)
  | succ depth step =>
    intro cut
    have call := @addToGraphAndGetId_added described duplicates depth numbering repo
    rw [cut] at call
    cases call with
    | aborted fresh found bound =>
      have there := isSome_of_eq_some found
      have less := remaining_withId fresh (all _ there)
      exact addBindings_enough step
        (fun valid added => (addToGraphAndGetId_extends regular valid added).1)
        (valid.start fresh there) (by omega) bound

theorem addBindings_fixed
    (call : ∀ {numbering target}, Complete described target → add numbering target ≠ .error .unfixed)
    {nameMapping : Transitions} {bindings : Fields}
    (complete : ∀ entry ∈ nameMapping, Complete described entry.2) :
    addBindings add nameMapping bindings numbering ≠ .error .unfixed := by
  induction nameMapping generalizing bindings numbering with
  | nil =>
    intro failed
    cases failed
  | cons entry rest step =>
    obtain ⟨symbol, target⟩ := entry
    obtain ⟨here, later⟩ := forall_mem_cons.mp complete
    rw [addBindings_cons]
    cases called : add numbering target with
    | error abort =>
      intro failed
      cases failed
      exact call here called
    | ok result => exact step later

theorem addToGraphAndGetId_fixed (regular : Regular described) (merges : Merges described duplicates)
    {depth : Nat} (complete : Complete described repo) :
    addToGraphAndGetId described duplicates depth numbering repo ≠ .error .unfixed := by
  induction depth generalizing numbering repo with
  | zero =>
    intro failed
    cases failed
  | succ depth step =>
    intro failed
    have unique := merges.complete_of_same complete (merges.idempotent repo).symm
    have call := @addToGraphAndGetId_added described duplicates depth numbering repo
    rw [failed] at call
    cases call with
    | unfixed fresh missing =>
      have there := unique.isSome
      rw [missing] at there
      cases there
    | @aborted desc nameMapping _ fresh found bound =>
      refine addBindings_fixed step (fun entry member => unique.binds ?_) bound
      exact ⟨desc, nameMapping, entry.1, found, find_of_mem (regular.ordered found) member⟩

/-- The numbering before anything has been added. -/
def empty : Numbering := { graph := [], idCounter := 0, repoIds := [] }

theorem valid_empty : Valid described duplicates [] empty := by
  constructor <;> intros <;> contradiction

/-- What `AddToGraphAndGetId` makes of a configuration is the graph of a repository. -/
def IsGraph (described : Described) (duplicates : List (Str × Str)) (repo : Str) (graph : Fields) :
    Prop :=
  ∃ depth id next, addToGraphAndGetId described duplicates depth empty repo = .ok (id, next) ∧
    next.graph = graph

theorem IsGraph.exists_numbering (regular : Regular described)
    (isGraph : IsGraph described duplicates repo graph) :
    ∃ next, next.graph = graph ∧ Valid described duplicates [] next ∧
      find (deduplicateRepo duplicates repo) next.repoIds = some (decimal 0) := by
  obtain ⟨depth, id, next, added, same⟩ := isGraph
  obtain ⟨extended, known⟩ := addToGraphAndGetId_extends regular valid_empty added
  refine ⟨next, same, extended.valid, ?_⟩
  cases depth with
  | zero => cases added
  | succ depth =>
    have call := @addToGraphAndGetId_added described duplicates depth empty repo
    rw [added] at call
    cases call with
    | known found => cases found
    | added fresh found bound => exact known

theorem Valid.binds (merges : Merges described duplicates)
    (valid : Valid described duplicates [] numbering) {id : Str}
    (known : find (deduplicateRepo duplicates repo) numbering.repoIds = some id) :
    ∃ desc nameMapping bindings, described repo = some (desc, nameMapping) ∧
      find id numbering.graph = some (withBindings desc bindings) ∧
      Names duplicates numbering nameMapping bindings := by
  obtain ⟨desc, unique, bindings, foundUnique, inGraph, names⟩ := valid.listed known not_mem_nil
  have there := (merges.isSome_iff repo).mp (isSome_of_eq_some foundUnique)
  obtain ⟨desc', nameMapping, unique', found, foundUnique', targets⟩ :=
    merges.same_data there (merges.idempotent repo).symm
  rw [foundUnique, some.injEq, Prod.mk.injEq] at foundUnique'
  obtain ⟨rfl, rfl⟩ := foundUnique'
  refine ⟨_, nameMapping, bindings, found, inGraph, fun symbol => ?_⟩
  refine rel_of (fun target step => ?_) fun value present => ?_
  · obtain ⟨target', step', same⟩ := exists_right (targets symbol) step
    obtain ⟨value, present, id, known, isId⟩ := exists_right (names symbol) step'
    exact ⟨value, present, id, same ▸ known, isId⟩
  · obtain ⟨target', step', -⟩ := exists_left (names symbol) present
    obtain ⟨target, step, -⟩ := exists_left (targets symbol) step'
    exact isSome_of_eq_some step

theorem IsGraph.complete (regular : Regular described) (merges : Merges described duplicates)
    (isGraph : IsGraph described duplicates repo graph) : Complete described repo := by
  obtain ⟨next, -, valid, known⟩ := isGraph.exists_numbering regular
  refine @complete_of_closed described repo (fun repo =>
    (find (deduplicateRepo duplicates repo) next.repoIds).isSome) ?_ ?_
    (isSome_of_eq_some known)
  · intro repo present
    obtain ⟨id, known⟩ := isSome_iff_exists.mp present
    exact (merges.isSome_iff repo).mp (valid.there known)
  · rintro repo other present ⟨desc, nameMapping, symbol, found, step⟩
    obtain ⟨id, known⟩ := isSome_iff_exists.mp present
    obtain ⟨desc', nameMapping', bindings, found', -, names⟩ := valid.binds merges known
    rw [found, some.injEq, Prod.mk.injEq] at found'
    obtain ⟨rfl, rfl⟩ := found'
    obtain ⟨value, -, id, known, -⟩ := exists_right (names symbol) step
    exact isSome_of_eq_some known

end Success

section Canonicity

variable {duplicates duplicates' : List (Str × Str)}

theorem withBindings_inj (regular : Regular described) (regular' : Regular described')
    {desc desc' bindings bindings' : Fields} {nameMapping nameMapping' : Transitions}
    (found : described repo = some (desc, nameMapping))
    (found' : described' repo' = some (desc', nameMapping'))
    (same : withBindings desc bindings = withBindings desc' bindings') :
    desc = desc' ∧ bindings = bindings' := by
  rw [withBindings, withBindings, regular.first found, regular'.first found', Json.object.injEq,
    List.cons.injEq, Prod.mk.injEq, Json.object.injEq] at same
  exact ⟨same.2, same.1.2⟩

theorem IsGraph.alike (regular : Regular described) (regular' : Regular described')
    (merges : Merges described duplicates) (merges' : Merges described' duplicates')
    (isGraph : IsGraph described duplicates repo graph)
    (isGraph' : IsGraph described' duplicates' repo' graph) :
    Alike described described' repo repo' := by
  refine ⟨isGraph.complete regular merges, isGraph'.complete regular' merges', ?_⟩
  obtain ⟨next, isNext, valid, known⟩ := isGraph.exists_numbering regular
  obtain ⟨next', isNext', valid', known'⟩ := isGraph'.exists_numbering regular'
  refine @alike_of_related described described' repo repo' (fun repo repo' => ∃ id,
    find (deduplicateRepo duplicates repo) next.repoIds = some id ∧
      find (deduplicateRepo duplicates' repo') next'.repoIds = some id) ?_ ⟨_, known, known'⟩
  rintro repo repo' ⟨id, known, known'⟩
  obtain ⟨desc, nameMapping, bindings, found, inGraph, names⟩ := valid.binds merges known
  obtain ⟨desc', nameMapping', bindings', found', inGraph', names'⟩ := valid'.binds merges' known'
  rw [isNext, ← isNext', inGraph', some.injEq] at inGraph
  obtain ⟨rfl, rfl⟩ := withBindings_inj regular' regular found' found inGraph
  refine ⟨_, nameMapping, nameMapping', found, found', fun symbol => ?_⟩
  refine rel_of (fun target step => ?_) fun target' step' => ?_
  · obtain ⟨value, present, id, knownTarget, isId⟩ := exists_right (names symbol) step
    obtain ⟨target', step', id', knownTarget', isId'⟩ := exists_left (names' symbol) present
    have same : id = id' := Json.string.inj (isId.symm.trans isId')
    exact ⟨target', step', id, knownTarget, same ▸ knownTarget'⟩
  · obtain ⟨value, present, -⟩ := exists_right (names' symbol) step'
    obtain ⟨target, step, -⟩ := exists_left (names symbol) present
    exact isSome_of_eq_some step

/-- Two numberings that look the same: repositories that are alike have the same id. -/
structure Matches (described described' : Described) (duplicates duplicates' : List (Str × Str))
    (numbering numbering' : Numbering) : Prop where
  graph : numbering.graph = numbering'.graph
  idCounter : numbering.idCounter = numbering'.idCounter
  repoIds : ∀ {repo repo'}, Alike described described' repo repo' →
    find (deduplicateRepo duplicates repo) numbering.repoIds =
      find (deduplicateRepo duplicates' repo') numbering'.repoIds

/-- Two calls that return the same and leave numberings that look the same, or fail in the same way.
-/
inductive Agrees {Result : Type} (same : Numbering → Numbering → Prop) :
    Except Abort (Result × Numbering) → Except Abort (Result × Numbering) → Prop where
  | ok {result : Result} {next next' : Numbering} (holds : same next next') :
    Agrees same (.ok (result, next)) (.ok (result, next'))
  | error (abort : Abort) : Agrees same (.error abort) (.error abort)

theorem addBindings_agrees {same : Numbering → Numbering → Prop} {alike : Str → Str → Prop}
    {add add' : Numbering → Str → Except Abort (Str × Numbering)}
    (call : ∀ {numbering numbering' repo repo'}, alike repo repo' → same numbering numbering' →
      Agrees same (add numbering repo) (add' numbering' repo'))
    {nameMapping nameMapping' : Transitions} {bindings : Fields} {numbering numbering' : Numbering}
    (targets : List.Forall₂ (fun entry other => entry.1 = other.1 ∧ alike entry.2 other.2)
      nameMapping nameMapping') (start : same numbering numbering') :
    Agrees same (addBindings add nameMapping bindings numbering)
      (addBindings add' nameMapping' bindings numbering') := by
  induction targets generalizing bindings numbering numbering' with
  | nil => exact .ok start
  | @cons entry other rest rest' here _ step =>
    obtain ⟨symbol, target⟩ := entry
    obtain ⟨symbol', target'⟩ := other
    obtain ⟨rfl, alike⟩ := here
    rw [addBindings_cons, addBindings_cons]
    have first := call alike start
    generalize add numbering target = called at first
    generalize add' numbering' target' = called' at first
    cases first with
    | ok next => exact step next
    | error abort => exact .error abort

theorem Matches.start (merges : Merges described duplicates) (merges' : Merges described' duplicates')
    {numbering numbering' : Numbering} (alike : Alike described described' repo repo')
    (matching : Matches described described' duplicates duplicates' numbering numbering')
    (fresh : find (deduplicateRepo duplicates repo) numbering.repoIds = none)
    (fresh' : find (deduplicateRepo duplicates' repo') numbering'.repoIds = none) :
    Matches described described' duplicates duplicates'
      (withId numbering (deduplicateRepo duplicates repo))
      (withId numbering' (deduplicateRepo duplicates' repo')) := by
  refine ⟨matching.graph, congrArg (· + 1) matching.idCounter, fun {other other'} alikeOther => ?_⟩
  have both : deduplicateRepo duplicates repo = deduplicateRepo duplicates other ↔
      deduplicateRepo duplicates' repo' = deduplicateRepo duplicates' other' := by
    rw [merges.same_iff alike.complete, merges'.same_iff alike.complete']
    constructor
    · intro same
      exact ⟨alike.complete', alikeOther.complete',
        (alike.bisimilar.symm.trans same.bisimilar).trans alikeOther.bisimilar⟩
    · intro same
      exact ⟨alike.complete, alikeOther.complete,
        (alike.bisimilar.trans same.bisimilar).trans alikeOther.bisimilar.symm⟩
  rw [find_withId fresh, find_withId fresh', matching.idCounter]
  by_cases same : deduplicateRepo duplicates repo = deduplicateRepo duplicates other
  · rw [if_pos same, if_pos (both.mp same)]
  · rw [if_neg same, if_neg (mt both.mpr same), matching.repoIds alikeOther]

theorem addToGraphAndGetId_agrees (regular : Regular described) (regular' : Regular described')
    (merges : Merges described duplicates) (merges' : Merges described' duplicates') {depth : Nat}
    {numbering numbering' : Numbering} (alike : Alike described described' repo repo')
    (matching : Matches described described' duplicates duplicates' numbering numbering') :
    Agrees (Matches described described' duplicates duplicates')
      (addToGraphAndGetId described duplicates depth numbering repo)
      (addToGraphAndGetId described' duplicates' depth numbering' repo') := by
  induction depth generalizing numbering numbering' repo repo' with
  | zero => exact .error _
  | succ depth step =>
    have unique : Alike described described' (deduplicateRepo duplicates repo)
        (deduplicateRepo duplicates' repo') :=
      ⟨(merges.alike_self alike.complete).complete', (merges'.alike_self alike.complete').complete',
        ((merges.alike_self alike.complete).bisimilar.symm.trans alike.bisimilar).trans
          (merges'.alike_self alike.complete').bisimilar⟩
    obtain ⟨desc, nameMapping, nameMapping', found, found', targets⟩ := unique.data
    have ids := matching.repoIds alike
    rw [addToGraphAndGetId_succ, addToGraphAndGetId_succ, found, found', ← matching.idCounter]
    cases fresh : find (deduplicateRepo duplicates repo) numbering.repoIds with
    | some id =>
      rw [← ids, fresh]
      exact .ok matching
    | none =>
      rw [fresh] at ids
      rw [← ids]
      have inside := @addBindings_agrees _ (Alike described described') _ _ step _ _ [] _ _
        (forall₂_of_find (regular.ordered found) (regular'.ordered found') targets)
        (matching.start merges merges' alike fresh ids.symm)
      simp only
      generalize addBindings (addToGraphAndGetId described duplicates depth) nameMapping []
        (withId numbering (deduplicateRepo duplicates repo)) = bound at inside
      generalize addBindings (addToGraphAndGetId described' duplicates' depth) nameMapping' []
        (withId numbering' (deduplicateRepo duplicates' repo')) = bound' at inside
      cases inside with
      | error abort => exact .error abort
      | @ok bindings next next' after =>
        refine .ok ⟨?_, after.idCounter, after.repoIds⟩
        show insert _ _ next.graph = insert _ _ next'.graph
        rw [after.graph]

end Canonicity

section Deduplication

variable {Precomputed Digest : Type} {contentId : Fields → Str}
  (config : RepositoryConfig Precomputed Digest) (orders : Orders Precomputed Digest)

variable {data : Fields × Transitions}

/-- Different descriptions of repositories have different hashes. -/
def CollisionFree (Precomputed : Type) (contentId : Fields → Str) : Prop :=
  ∀ (info info' : RepositoryInfo Precomputed) {desc desc' : Fields},
    info.baseContentDescription = some desc → info'.baseContentDescription = some desc' →
      contentId desc = contentId desc' → desc = desc'

theorem contentFixed_eq_some :
    contentFixed config repo = some data ↔ ∃ stored, find repo config.repos = some stored ∧
      stored.baseDesc = some data.1 ∧ stored.info.nameMapping = data.2 := by
  obtain ⟨desc, nameMapping⟩ := data
  simp only [contentFixed, bind_eq_bind, bind_eq_some_iff, pure_def, some.injEq, Prod.mk.injEq]
  constructor
  · rintro ⟨stored, found, desc, described, rfl, rfl⟩
    exact ⟨stored, found, described, rfl⟩
  · rintro ⟨stored, found, described, rfl⟩
    exact ⟨stored, found, desc, described, rfl, rfl⟩

theorem insert_baseContentDescription {info : RepositoryInfo Precomputed} {desc : Fields}
    (found : info.baseContentDescription = some desc) (bindings : JsonValue) :
    insert (lit "bindings") bindings desc = (lit "bindings", bindings) :: desc := by
  simp only [RepositoryInfo.baseContentDescription, bind_eq_bind, bind_eq_some_iff,
    pure_def, some.injEq] at found
  obtain ⟨-, -, -, -, -, -, -, -, rfl⟩ := found
  exact if_pos (by decide)

theorem regular_contentFixed : Regular (contentFixed config) := by
  constructor
  · intro repo desc nameMapping found
    obtain ⟨stored, -, -, rfl⟩ := (contentFixed_eq_some config).mp found
    exact stored.info.ordered
  · intro repo desc nameMapping found bindings
    obtain ⟨stored, -, described, -⟩ := (contentFixed_eq_some config).mp found
    exact insert_baseContentDescription (stored.described.symm.trans described) bindings

/-- The state that is added for a repository, if it is content-fixed. -/
def stateOf (contentId : Fields → Str) (entry : Str × RepositoryData Precomputed Digest) :
    Option (Str × Transitions × Str) :=
  entry.2.baseDesc.map fun desc => (entry.1, entry.2.info.nameMapping, contentId desc)

/-- The states of the content-fixed repositories. -/
def states (contentId : Fields → Str) : List (Str × Transitions × Str) :=
  (orders.repos.arrange config.repos).filterMap (stateOf contentId)

theorem mem_states {name : Str} {state : Transitions × Str} :
    (name, state) ∈ states config orders contentId ↔
      ∃ desc, contentFixed config name = some (desc, state.1) ∧ contentId desc = state.2 := by
  obtain ⟨nameMapping, id⟩ := state
  simp only [states, stateOf, List.mem_filterMap, map_eq_some_iff, Prod.mk.injEq,
    contentFixed_eq_some]
  constructor
  · rintro ⟨⟨_, stored⟩, member, desc, described, rfl, rfl, rfl⟩
    have inside := (orders.repos.perm config.repos).mem_iff.mp member
    exact ⟨desc, ⟨stored, find_of_mem config.ordered inside, described, rfl⟩, rfl⟩
  · rintro ⟨desc, ⟨stored, found, described, rfl⟩, rfl⟩
    have inside := (orders.repos.perm config.repos).mem_iff.mpr (mem_of_find found)
    exact ⟨(name, stored), inside, desc, described, rfl, rfl, rfl⟩

/-- The states of a configuration. -/
def table (contentId : Fields → Str) : Minimization.Table where
  states := states config orders contentId
  distinct := by
    have names : ((orders.repos.arrange config.repos).map fst).Nodup :=
      ((orders.repos.perm config.repos).map fst).nodup_iff.mpr
        (List.Pairwise.imp ne_of_lt (pairwise_map.mpr config.ordered))
    refine List.Pairwise.imp id (pairwise_map.mpr ?_)
    refine List.Pairwise.filterMap _ ?_ (pairwise_map.mp names)
    intro entry other apart state made state' made'
    obtain ⟨_, -, rfl⟩ := map_eq_some_iff.mp made
    obtain ⟨_, -, rfl⟩ := map_eq_some_iff.mp made'
    exact apart
  ordered := by
    intro state member
    obtain ⟨desc, found, -⟩ := (mem_states config orders).mp member
    exact (regular_contentFixed config).ordered found

theorem find_table (name : Str) : find name (table config orders contentId).states =
    (contentFixed config name).map fun data => (data.2, contentId data.1) := by
  cases found : contentFixed config name with
  | some data =>
    exact Minimization.find_state ((mem_states config orders).mpr ⟨data.1, found, rfl⟩)
  | none =>
    refine find_eq_none.mpr fun state member same => ?_
    obtain ⟨desc, present, -⟩ := (mem_states config orders).mp member
    rw [same, found] at present
    cases present

theorem computeDuplicates_eq : computeDuplicates config contentId orders =
    (table config orders contentId).minimizer.bind
      (computeBisimulation orders.buckets orders.states orders.keys) := by
  show Option.bind _ _ = Option.bind _ _
  congr 1
  show _ = (List.filterMap _ _).foldlM _ _
  rw [List.foldlM_filterMap]
  congr 1
  funext minimizer entry
  rw [stateOf]
  cases entry.2.baseDesc with
  | some desc => rfl
  | none => rfl

theorem label_table (found : contentFixed config repo = some data) :
    (table config orders contentId).system.label repo = .inl (contentId data.1) := by
  simp only [Minimization.Table.system, find_table, found, map_some]

theorem next_table (found : contentFixed config repo = some data) :
    (table config orders contentId).system.next repo = fun symbol => find symbol data.2 := by
  simp only [Minimization.Table.system, find_table, found, map_some, bind_some]

theorem same_of_bisimilar {map : List (Str × Str)} {table : Minimization.Table}
    (unique : ∀ state ∈ table.states.map fst, ∃! representative,
      Minimization.Chosen table map representative ∧ Bisimilar table.system state representative)
    (chosen : ∀ state ∈ table.states.map fst,
      Minimization.Chosen table map (deduplicateRepo map state) ∧
        Bisimilar table.system state (deduplicateRepo map state))
    {left right : Str} (alike : Bisimilar table.system left right) :
    deduplicateRepo map left = deduplicateRepo map right := by
  by_cases apart : left = right
  · rw [apart]
  · obtain ⟨leftState, rightState, leftIn, rightIn⟩ := Minimization.states_of_bisimilar apart alike
    have leftName : left ∈ table.states.map fst := mem_map.mpr ⟨_, leftIn, rfl⟩
    have rightName : right ∈ table.states.map fst := mem_map.mpr ⟨_, rightIn, rfl⟩
    have first := chosen left leftName
    have second := chosen right rightName
    exact (unique left leftName).unique first ⟨second.1, alike.trans second.2⟩

variable (collisionFree : CollisionFree Precomputed contentId)

include collisionFree

theorem computeDuplicates_merges : ∃ duplicates,
    computeDuplicates config contentId orders = some duplicates ∧
      Merges (contentFixed config) duplicates := by
  obtain ⟨minimizer, map, added, computed, sends, unique, unsent⟩ :=
    Minimization.computeBisimulation_table orders.buckets orders.states orders.keys
      (table config orders contentId)
  refine ⟨map, ?_, ?_⟩
  · rw [computeDuplicates_eq, added, bind_some, computed]
  have name : ∀ {repo data}, contentFixed config repo = some data →
      repo ∈ (table config orders contentId).states.map fst := by
    intro repo data found
    have member : (repo, data.2, contentId data.1) ∈ states config orders contentId :=
      (mem_states config orders).mpr ⟨data.1, found, rfl⟩
    exact mem_map.mpr ⟨_, member, rfl⟩
  have chosen : ∀ state ∈ (table config orders contentId).states.map fst,
      Minimization.Chosen (table config orders contentId) map (deduplicateRepo map state) ∧
        Bisimilar (table config orders contentId).system state (deduplicateRepo map state) := by
    intro state member
    cases found : find state map with
    | some representative =>
      have sent := (sends state representative).mp found
      rw [deduplicateRepo, found]
      exact ⟨sent.2.2.1, sent.2.2.2⟩
    | none =>
      rw [deduplicateRepo, found]
      exact ⟨⟨member, found⟩, .refl state⟩
  have same := fun {left right} => @same_of_bisimilar map _ unique chosen left right
  constructor
  · intro repo missing
    have unsent : find repo map = none := by
      cases found : find repo map with
      | none => rfl
      | some representative =>
        obtain ⟨⟨_, state⟩, member, rfl⟩ := mem_map.mp ((sends _ _).mp found).1
        obtain ⟨desc, present, -⟩ := (mem_states config orders).mp member
        rw [missing] at present
        cases present
    rw [deduplicateRepo, unsent, getD_none]
  · intro repo desc nameMapping found
    obtain ⟨isChosen, alike⟩ := chosen repo (name found)
    obtain ⟨⟨other, state⟩, member, isOther⟩ := mem_map.mp isChosen.1
    obtain ⟨desc', found', -⟩ := (mem_states config orders).mp member
    rw [show other = _ from isOther] at found'
    have label := alike.label
    rw [label_table config orders found, label_table config orders found', Sum.inl.injEq] at label
    obtain ⟨stored, -, described, -⟩ := (contentFixed_eq_some config).mp found
    obtain ⟨stored', -, described', -⟩ := (contentFixed_eq_some config).mp found'
    have descs := collisionFree _ _ (stored.described.symm.trans described)
      (stored'.described.symm.trans described') label
    simp only at descs
    subst descs
    refine ⟨state.1, found', fun symbol => ?_⟩
    have targets := (bisimilar_isBisimulation _ _ _ alike).2 symbol
    rw [next_table config orders found, next_table config orders found'] at targets
    refine rel_of (fun target step => ?_) fun target' step' => ?_
    · obtain ⟨target', step', alike⟩ := exists_right targets step
      exact ⟨target', step', same alike⟩
    · obtain ⟨target, step, -⟩ := exists_left targets step'
      exact isSome_of_eq_some step
  · intro repo
    cases found : find repo map with
    | some representative =>
      have sent : deduplicateRepo map repo = representative := by
        rw [deduplicateRepo, found, getD_some]
      rw [sent, deduplicateRepo, unsent repo representative found, getD_none]
    | none =>
      have stays : deduplicateRepo map repo = repo := by
        rw [deduplicateRepo, found, getD_none]
      rw [stays, stays]
  · intro repo other alike
    refine same ⟨Alike (contentFixed config) (contentFixed config), ?_, alike⟩
    intro left right alike
    obtain ⟨desc, nameMapping, nameMapping', found, found', targets⟩ := alike.data
    rw [label_table config orders found, label_table config orders found',
      next_table config orders found, next_table config orders found']
    exact ⟨rfl, targets⟩

end Deduplication

section Keys

variable {Precomputed Digest : Type} {contentId : Fields → Str} {storeBlob : JsonValue → Option Digest}
  {config next : RepositoryConfig Precomputed Digest} {duplicates duplicates' : List (Str × Str)}
  {key key' : Option Digest}

/-- What the key of a repository is: that of its graph if there is one. -/
inductive IsKey (described : Described) (storeBlob : JsonValue → Option Digest) (repo : Str) :
    Option Digest → Prop where
  | absent (incomplete : ¬Complete described repo) : IsKey described storeBlob repo none
  | stored {duplicates : List (Str × Str)} {graph : Fields} (merges : Merges described duplicates)
    (isGraph : IsGraph described duplicates repo graph) :
    IsKey described storeBlob repo (storeBlob (.object graph))

theorem IsGraph.of_alike (regular : Regular described) (regular' : Regular described')
    (merges : Merges described duplicates) (merges' : Merges described' duplicates')
    (alike : Alike described described' repo repo')
    (isGraph : IsGraph described duplicates repo graph) :
    IsGraph described' duplicates' repo' graph := by
  obtain ⟨depth, id, last, added, isLast⟩ := isGraph
  have start : Matches described described' duplicates duplicates' empty empty :=
    ⟨rfl, rfl, fun _ => rfl⟩
  have agrees := @addToGraphAndGetId_agrees _ _ _ _ _ _ regular regular' merges merges' depth _ _
    alike start
  rw [added] at agrees
  generalize called : addToGraphAndGetId described' duplicates' depth empty repo' = result at agrees
  cases agrees with
  | @ok _ _ last' same => exact ⟨depth, id, last', called, same.graph.symm.trans isLast⟩

theorem IsGraph.unique {graph' : Fields} (isGraph : IsGraph described duplicates repo graph)
    (isGraph' : IsGraph described duplicates repo graph') : graph = graph' := by
  obtain ⟨depth, id, last, added, rfl⟩ := isGraph
  obtain ⟨depth', id', last', added', rfl⟩ := isGraph'
  have deeper := addToGraphAndGetId_depth (Nat.le_max_left depth depth') (by rw [added]; nofun)
  have deeper' := addToGraphAndGetId_depth (Nat.le_max_right depth depth') (by rw [added']; nofun)
  rw [added] at deeper
  rw [added', deeper] at deeper'
  cases deeper'
  rfl

theorem IsKey.of_alike (regular : Regular described) (regular' : Regular described')
    (merges' : Merges described' duplicates') (alike : Alike described described' repo repo')
    (isKey : IsKey described storeBlob repo key) : IsKey described' storeBlob repo' key := by
  cases isKey with
  | absent incomplete => exact absurd alike.complete incomplete
  | stored merges isGraph =>
    exact .stored merges' (isGraph.of_alike regular regular' merges merges' alike)

theorem IsKey.unique (regular : Regular described) (isKey : IsKey described storeBlob repo key)
    (isKey' : IsKey described storeBlob repo key') : key = key' := by
  cases isKey with
  | absent incomplete =>
    cases isKey' with
    | absent _ => rfl
    | stored merges' isGraph' => exact absurd (isGraph'.complete regular merges') incomplete
  | stored merges isGraph =>
    have complete := isGraph.complete regular merges
    cases isKey' with
    | absent incomplete => exact absurd complete incomplete
    | stored merges' isGraph' =>
      have moved := isGraph.of_alike regular regular merges merges' ⟨complete, complete, .refl _⟩
      rw [moved.unique isGraph']

theorem buildGraphForRepository_spec (merges : Merges (contentFixed config) duplicates) (repo : Str) :
    (∃ graph, buildGraphForRepository config duplicates repo = .ok (.object graph) ∧
      IsGraph (contentFixed config) duplicates repo graph) ∨
    (buildGraphForRepository config duplicates repo = .error .unfixed ∧
      ¬Complete (contentFixed config) repo) := by
  have regular := regular_contentFixed config
  have all : ∀ repo, (contentFixed config repo).isSome → repo ∈ config.repos.map fst := by
    intro repo there
    obtain ⟨data, found⟩ := isSome_iff_exists.mp there
    obtain ⟨stored, found, -⟩ := (contentFixed_eq_some config).mp found
    exact mem_map.mpr ⟨_, mem_of_find found, rfl⟩
  have small : remaining (config.repos.map fst) empty < config.repos.length + 1 := by
    have count := List.countP_le_length (p := fun repo => (find repo empty.repoIds).isNone)
      (l := config.repos.map fst)
    rw [length_map] at count
    exact Nat.lt_succ_of_le count
  have enough := @addToGraphAndGetId_enough _ repo duplicates _ _ regular _ _ all valid_empty small
  have whole : ∀ result, addToGraphAndGetId (contentFixed config) duplicates
      (config.repos.length + 1) empty repo = result → buildGraphForRepository config duplicates repo =
        result.map fun added => .object added.2.graph := by
    rintro result rfl
    rfl
  generalize added : addToGraphAndGetId (contentFixed config) duplicates (config.repos.length + 1)
    empty repo = result at enough
  cases result with
  | ok result => exact .inl ⟨result.2.graph, whole _ added, _, result.1, result.2, added, rfl⟩
  | error abort =>
    cases abort with
    | depth => exact absurd rfl enough
    | unfixed =>
      refine .inr ⟨whole _ added, fun complete => ?_⟩
      exact addToGraphAndGetId_fixed regular merges complete added

/-- What has been kept is still right. -/
structure Coherent (storeBlob : JsonValue → Option Digest)
    (config : RepositoryConfig Precomputed Digest) : Prop where
  duplicates : ∀ {duplicates}, config.duplicates = some duplicates →
    Merges (contentFixed config) duplicates
  keys : ∀ {repo data key}, find repo config.repos = some data → data.key = some key →
    IsKey (contentFixed config) storeBlob repo key

/-- Two configurations have the same repositories. -/
def SameInfos (config next : RepositoryConfig Precomputed Digest) : Prop :=
  ∀ repo, (find repo next.repos).map RepositoryData.info =
    (find repo config.repos).map RepositoryData.info

theorem contentFixed_of_sameInfos (same : SameInfos config next) :
    contentFixed next = contentFixed config := by
  have described : ∀ config : RepositoryConfig Precomputed Digest, contentFixed config = fun repo =>
      ((find repo config.repos).map RepositoryData.info).bind fun info =>
        info.baseContentDescription.map fun desc => (desc, info.nameMapping) := by
    intro config
    funext repo
    rw [contentFixed]
    cases find repo config.repos with
    | none => rfl
    | some data =>
      show (data.baseDesc.bind fun desc => some (desc, data.info.nameMapping)) = _
      rw [data.described]
      exact Option.map_eq_bind.symm
  rw [described, described]
  funext repo
  rw [same repo]

theorem sameInfos_setKey {data : RepositoryData Precomputed Digest}
    (found : find repo config.repos = some data) (key : Option Digest) :
    SameInfos config (setKey config repo data key) := by
  intro query
  show (find query (SortedMap.insert repo _ config.repos)).map _ = _
  rw [find_insert]
  by_cases same : repo = query
  · rw [if_pos same, ← same, found]
    rfl
  · rw [if_neg same]

theorem Coherent.setKey (coherent : Coherent storeBlob config)
    {data : RepositoryData Precomputed Digest} (found : find repo config.repos = some data)
    (isKey : IsKey (contentFixed config) storeBlob repo key) :
    Coherent storeBlob (Repositories.setKey config repo data key) := by
  have same := contentFixed_of_sameInfos (sameInfos_setKey found key)
  constructor
  · intro duplicates present
    rw [same]
    exact coherent.duplicates present
  · intro query stored other present kept
    rw [same]
    rw [show find query (Repositories.setKey config repo data key).repos = _ from
      find_insert query repo _ config.repos] at present
    by_cases here : repo = query
    · rw [if_pos here, some.injEq] at present
      rw [← present, some.injEq] at kept
      exact here ▸ kept ▸ isKey
    · rw [if_neg here] at present
      exact coherent.keys present kept

theorem Coherent.setDuplicates (coherent : Coherent storeBlob config)
    (merges : Merges (contentFixed config) duplicates) :
    Coherent storeBlob (Repositories.setDuplicates config duplicates) := by
  constructor
  · intro other present
    exact some.inj present ▸ merges
  · exact coherent.keys

theorem isKey_deduplicateRepo (merges : Merges (contentFixed config) duplicates)
    (isKey : IsKey (contentFixed config) storeBlob (deduplicateRepo duplicates repo) key) :
    IsKey (contentFixed config) storeBlob repo key := by
  by_cases complete : Complete (contentFixed config) repo
  · have regular := regular_contentFixed config
    exact isKey.of_alike regular regular merges (merges.alike_self complete).symm
  · have incomplete : ¬Complete (contentFixed config) (deduplicateRepo duplicates repo) :=
      fun unique => complete (merges.complete_of_same unique (merges.idempotent repo))
    cases isKey with
    | absent _ => exact .absent complete
    | stored merges' isGraph =>
      exact absurd (isGraph.complete (regular_contentFixed config) merges') incomplete

theorem keyOfUnique_spec (coherent : Coherent storeBlob config)
    (merges : Merges (contentFixed config) duplicates) (unique : Str) :
    ∃ key next, keyOfUnique config storeBlob duplicates unique = some (key, next) ∧
      IsKey (contentFixed config) storeBlob unique key ∧ Coherent storeBlob next ∧
      SameInfos config next := by
  rw [keyOfUnique]
  cases found : find unique config.repos with
  | none =>
    refine ⟨none, config, rfl, .absent fun complete => ?_, coherent, fun _ => rfl⟩
    obtain ⟨data, there⟩ := isSome_iff_exists.mp complete.isSome
    obtain ⟨stored, present, -⟩ := (contentFixed_eq_some config).mp there
    rw [found] at present
    cases present
  | some data =>
    simp only
    cases kept : data.key with
    | some key => exact ⟨key, config, rfl, coherent.keys found kept, coherent, fun _ => rfl⟩
    | none =>
      cases buildGraphForRepository_spec merges unique with
      | inl built =>
        obtain ⟨graph, built, isGraph⟩ := built
        rw [built]
        have isKey : IsKey (contentFixed config) storeBlob unique (storeBlob (.object graph)) :=
          .stored merges isGraph
        exact ⟨_, _, rfl, isKey, coherent.setKey found isKey, sameInfos_setKey found _⟩
      | inr failed =>
        rw [failed.1]
        have isKey : IsKey (contentFixed config) storeBlob unique none := .absent failed.2
        exact ⟨_, _, rfl, isKey, coherent.setKey found isKey, sameInfos_setKey found _⟩

theorem repositoryKey_spec (collisionFree : CollisionFree Precomputed contentId)
    (coherent : Coherent storeBlob config) (orders : Orders Precomputed Digest) (repo : Str) :
    ∃ key next, repositoryKey config contentId storeBlob orders repo = some (key, next) ∧
      IsKey (contentFixed config) storeBlob repo key ∧ Coherent storeBlob next ∧
      SameInfos config next := by
  obtain ⟨duplicates, computed, merges⟩ : ∃ duplicates,
      duplicatesOf config contentId orders = some duplicates ∧
        Merges (contentFixed config) duplicates := by
    rw [duplicatesOf]
    cases kept : config.duplicates with
    | some duplicates => exact ⟨duplicates, rfl, coherent.duplicates kept⟩
    | none => exact computeDuplicates_merges config orders collisionFree
  obtain ⟨key, next, returned, isKey, coherentNext, same⟩ :=
    keyOfUnique_spec (coherent.setDuplicates merges) merges (deduplicateRepo duplicates repo)
  refine ⟨key, next, ?_, isKey_deduplicateRepo merges isKey, coherentNext, same⟩
  rw [repositoryKey, computed]
  exact returned

/-- A configuration that has been asked for keys since its repositories were set. -/
inductive Queried (contentId : Fields → Str) (storeBlob : JsonValue → Option Digest) :
    RepositoryConfig Precomputed Digest → Prop where
  | fresh {config : RepositoryConfig Precomputed Digest} (noDuplicates : config.duplicates = none)
    (noKeys : ∀ {repo data}, find repo config.repos = some data → data.key = none) :
    Queried contentId storeBlob config
  | ask {config next : RepositoryConfig Precomputed Digest} {orders : Orders Precomputed Digest}
    {repo : Str} {key : Option Digest} (queried : Queried contentId storeBlob config)
    (asked : repositoryKey config contentId storeBlob orders repo = some (key, next)) :
    Queried contentId storeBlob next

theorem coherent_of_nothing (noDuplicates : config.duplicates = none)
    (noKeys : ∀ {repo data}, find repo config.repos = some data → data.key = none) :
    Coherent storeBlob config := by
  constructor
  · intro duplicates present
    rw [noDuplicates] at present
    cases present
  · intro repo data key found kept
    rw [noKeys found] at kept
    cases kept

theorem Queried.coherent (collisionFree : CollisionFree Precomputed contentId)
    (queried : Queried contentId storeBlob config) : Coherent storeBlob config := by
  induction queried with
  | fresh noDuplicates noKeys => exact coherent_of_nothing noDuplicates noKeys
  | @ask config next orders repo key _ asked coherent =>
    obtain ⟨_, _, returned, -, coherentNext, -⟩ :=
      repositoryKey_spec collisionFree coherent orders repo
    rw [asked, some.injEq, Prod.mk.injEq] at returned
    exact returned.2 ▸ coherentNext

/-- Repository keys are canonical: two repositories have one key exactly if they are bisimilar, and
there is no key exactly if a repository that is reached is missing or not content-fixed. -/
theorem repositoryKey_eq_iff {config' : RepositoryConfig Precomputed Digest}
    (collisionFree : CollisionFree Precomputed contentId)
    (succeeds : ∀ graph, (storeBlob graph).isSome) (injective : Function.Injective storeBlob)
    (queried : Queried contentId storeBlob config) (queried' : Queried contentId storeBlob config')
    (orders orders' : Orders Precomputed Digest) (repo repo' : Str) :
    ∃ key key' next next',
      repositoryKey config contentId storeBlob orders repo = some (key, next) ∧
      repositoryKey config' contentId storeBlob orders' repo' = some (key', next') ∧
      (key.isSome ↔ Complete (contentFixed config) repo) ∧
      (key'.isSome ↔ Complete (contentFixed config') repo') ∧
      (Complete (contentFixed config) repo → Complete (contentFixed config') repo' →
        (key = key' ↔
          Bisimilar system (contentFixed config, repo) (contentFixed config', repo'))) := by
  obtain ⟨key, next, returned, isKey, -⟩ :=
    repositoryKey_spec collisionFree (queried.coherent collisionFree) orders repo
  obtain ⟨key', next', returned', isKey', -⟩ :=
    repositoryKey_spec collisionFree (queried'.coherent collisionFree) orders' repo'
  have regular := regular_contentFixed config
  have regular' := regular_contentFixed config'
  have present : ∀ {config : RepositoryConfig Precomputed Digest} {repo key},
      IsKey (contentFixed config) storeBlob repo key →
        (key.isSome ↔ Complete (contentFixed config) repo) := by
    intro config repo key isKey
    cases isKey with
    | absent incomplete => exact ⟨fun there => absurd there false_ne_true, fun complete =>
        absurd complete incomplete⟩
    | stored merges isGraph =>
      exact ⟨fun _ => isGraph.complete (regular_contentFixed config) merges, fun _ => succeeds _⟩
  refine ⟨key, key', next, next', returned, returned', present isKey, present isKey', ?_⟩
  intro complete complete'
  cases isKey with
  | absent incomplete => exact absurd complete incomplete
  | stored merges isGraph =>
    cases isKey' with
    | absent incomplete => exact absurd complete' incomplete
    | stored merges' isGraph' =>
      constructor
      · intro same
        have graphs := Json.object.inj (injective same)
        exact (isGraph.alike regular regular' merges merges' (graphs ▸ isGraph')).bisimilar
      · intro bisimilar
        have moved := isGraph.of_alike regular regular' merges merges'
          ⟨complete, complete', bisimilar⟩
        rw [moved.unique isGraph']

end Keys

section Example

/-- A text of which one can see where it ends. -/
def delimited : Str → Str
  | [] => [0]
  | byte :: rest => 1 :: byte :: delimited rest

theorem delimited_append_inj {left right rest other : Str} :
    delimited left ++ rest = delimited right ++ other ↔ left = right ∧ rest = other := by
  induction left generalizing right with
  | nil =>
    cases right with
    | nil => simp [delimited]
    | cons byte right => simp [delimited]
  | cons first left step =>
    cases right with
    | nil => simp [delimited]
    | cons byte right => simp [delimited, step, and_assoc]

/-- The texts in a field of a description. -/
def fieldText : JsonValue → Str
  | .string text => delimited text
  | .array [.string marker, .string tree] => delimited marker ++ delimited tree
  | _ => []

/-- A hash that has no collisions: all texts in a description. -/
def descriptionText (desc : Fields) : Str := desc.flatMap fun field => fieldText field.2

theorem exists_contentDescription {Precomputed : Type} {root : FileRoot Precomputed}
    {desc : JsonValue} (found : root.contentDescription = some desc) :
    ∃ marker tree, desc = .array [.string marker, .string tree] := by
  obtain ⟨root, ignoreSpecial⟩ := root
  cases root with
  | directory path => cases found
  | precomputed root => cases found
  | git tree => exact ⟨_, tree, (some.inj found).symm⟩
  | absent tree => exact ⟨_, tree, (some.inj found).symm⟩

theorem collisionFree_descriptionText (Precomputed : Type) :
    CollisionFree Precomputed descriptionText := by
  intro info info' desc desc' found found' same
  simp only [RepositoryInfo.baseContentDescription, bind_eq_bind, bind_eq_some_iff,
    pure_def, some.injEq] at found found'
  obtain ⟨workspace, isWorkspace, target, isTarget, rule, isRule, expression, isExpression, rfl⟩ :=
    found
  obtain ⟨workspace', isWorkspace', target', isTarget', rule', isRule', expression', isExpression',
    rfl⟩ := found'
  obtain ⟨_, _, rfl⟩ := exists_contentDescription isWorkspace
  obtain ⟨_, _, rfl⟩ := exists_contentDescription isTarget
  obtain ⟨_, _, rfl⟩ := exists_contentDescription isRule
  obtain ⟨_, _, rfl⟩ := exists_contentDescription isExpression
  obtain ⟨_, _, rfl⟩ := exists_contentDescription isWorkspace'
  obtain ⟨_, _, rfl⟩ := exists_contentDescription isTarget'
  obtain ⟨_, _, rfl⟩ := exists_contentDescription isRule'
  obtain ⟨_, _, rfl⟩ := exists_contentDescription isExpression'
  simp only [descriptionText, flatMap_cons, List.flatMap_nil, fieldText, append_assoc,
    delimited_append_inj] at same
  obtain ⟨expressionName, rfl, rfl, ruleName, rfl, rfl, targetName, rfl, rfl, rfl, rfl, -⟩ := same
  rw [expressionName, ruleName, targetName]

/-- A repository whose roots are one tree, and that binds repositories. -/
def simpleInfo (tree : Str) (nameMapping : Transitions) (ordered : Ascending nameMapping) :
    RepositoryInfo Unit where
  workspaceRoot := { root := .git tree, ignoreSpecial := false }
  targetRoot := { root := .git tree, ignoreSpecial := false }
  ruleRoot := { root := .git tree, ignoreSpecial := false }
  expressionRoot := { root := .git tree, ignoreSpecial := false }
  nameMapping := nameMapping
  ordered := ordered
  targetFileName := lit "TARGETS"
  ruleFileName := lit "RULES"
  expressionFileName := lit "EXPRESSIONS"

/-- A configuration without repositories. -/
def noRepositories : RepositoryConfig Unit JsonValue where
  repos := []
  ordered := .nil
  duplicates := none

/-- Two repositories that bind each other. -/
def twoRepositories : RepositoryConfig Unit JsonValue :=
  setInfo (setInfo noRepositories [97] (simpleInfo [1] [([120], [98])] (pairwise_singleton _ _)))
    [98] (simpleInfo [1] [([120], [97])] (pairwise_singleton _ _))

/-- A repository that binds itself. -/
def oneRepository : RepositoryConfig Unit JsonValue :=
  setInfo noRepositories [99] (simpleInfo [1] [([120], [99])] (pairwise_singleton _ _))

/-- The orders in which the lists are. -/
def listOrders : Orders Unit JsonValue where
  repos := ⟨id, fun _ => .refl _⟩
  buckets := ⟨id, fun _ => .refl _⟩
  states := ⟨id, fun _ => .refl _⟩
  keys := ⟨id, fun _ => .refl _⟩

theorem noRepositories_fresh {repo : Str} {data : RepositoryData Unit JsonValue}
    (found : find repo noRepositories.repos = some data) : data.key = none := by
  cases found

theorem setInfo_fresh {config : RepositoryConfig Unit JsonValue} {repo : Str}
    {info : RepositoryInfo Unit}
    (noKeys : ∀ {repo data}, find repo config.repos = some data → data.key = none) :
    ∀ {query data}, find query (setInfo config repo info).repos = some data → data.key = none := by
  intro query data found
  rw [show find query (setInfo config repo info).repos = _ from find_insert query repo _ _] at found
  by_cases same : repo = query
  · rw [if_pos same, some.injEq] at found
    rw [← found]
  · rw [if_neg same] at found
    exact noKeys found

theorem cycles_eq_iff : ∃ key key' next next',
    repositoryKey twoRepositories descriptionText some listOrders [98] = some (key, next) ∧
    repositoryKey oneRepository descriptionText some listOrders [99] = some (key', next') ∧
    (key.isSome ↔ Complete (contentFixed twoRepositories) [98]) ∧
    (key'.isSome ↔ Complete (contentFixed oneRepository) [99]) ∧
    (Complete (contentFixed twoRepositories) [98] → Complete (contentFixed oneRepository) [99] →
      (key = key' ↔ Bisimilar system (contentFixed twoRepositories, [98])
        (contentFixed oneRepository, [99]))) :=
  repositoryKey_eq_iff (collisionFree_descriptionText Unit) (fun _ => rfl) (Option.some_injective _)
    (.fresh rfl (setInfo_fresh (setInfo_fresh noRepositories_fresh)))
    (.fresh rfl (setInfo_fresh noRepositories_fresh)) listOrders listOrders [98] [99]

end Example

end Jst.Verif.RepositoryKeys
