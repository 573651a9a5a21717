import Jst.Data.Loops
import Jst.Data.Runs
import Jst.JustMr.SetupUtils
import Mathlib.Data.List.ReduceOption
/-!
# Reachable repositories

The loop over the repositories sees exactly those that can be reached, if it returns. It does not
return if it comes to a name from which references lead back to one that was visited; resolving a
description by reference checks for that.
-/
namespace Jst.Verif.ReachableRepos

open SortedMap Expression Worklist JustMr Runs
open Relation (ReflTransGen TransGen)

variable {toText : Value → Str} {repos : Repos}

variable {root last : Value} {desc : List (Str × Value)} {name : Str} {target : Option Str}
  {fuel : Nat}

/-! ## Chains of references -/

/-- The root is the name of a repository, and that has the other root. -/
def Refers (repos : Repos) (root next : Value) : Prop :=
  ∃ name repo, root = .string name ∧ find name repos = some (.map repo) ∧
    find (lit "repository") repo = some next

/-- The references from a root revisit a name. -/
def Revisits (repos : Repos) (root : Value) : Prop :=
  ∃ name, Reaches (Refers repos) root (.string name) ∧
    TransGen (Refers repos) (.string name) (.string name)

/-- The references from a root reach a name whose description is not a map with a repository. -/
def ReachesUnknown (repos : Repos) (root : Value) : Prop :=
  ∃ name, Reaches (Refers repos) root (.string name) ∧ Final (Refers repos) (.string name)

variable {next other : Value}

theorem Refers.unique (first : Refers repos root next)
    (second : Refers repos root other) : next = other := by
  obtain ⟨name, repo, rfl, described, field⟩ := first
  obtain ⟨_, _, same, describedToo, fieldToo⟩ := second
  cases same
  cases described.symm.trans describedToo
  exact some.inj (field.symm.trans fieldToo)

theorem last_unique (run : Reaches (Refers repos) root last)
    (final : Final (Refers repos) last) (run' : Reaches (Refers repos) root other)
    (final' : Final (Refers repos) other) : last = other := by
  induction run using ReflTransGen.head_induction_on with
  | refl =>
    obtain same | ⟨next, step, -⟩ := run'.cases_head
    · exact same
    · exact absurd step (final next)
  | head step _ later =>
    obtain rfl | ⟨next, step', rest⟩ := run'.cases_head
    · exact absurd step (final' _)
    · cases step.unique step'
      exact later rest

theorem Revisits.onward (revisits : Revisits repos root) :
    ∃ next, Refers repos root next ∧ Revisits repos next := by
  obtain ⟨name, run, loop⟩ := revisits
  obtain rfl | ⟨next, step, rest⟩ := run.cases_head
  · obtain ⟨next, step, back⟩ := TransGen.head'_iff.mp loop
    exact ⟨next, step, name, back, loop⟩
  · exact ⟨next, step, name, rest, loop⟩

theorem exists_last (acyclic : ¬ Revisits repos root) :
    ∃ last, Reaches (Refers repos) root last ∧ Final (Refers repos) last := by
  let Along : Value → Value → Prop := fun here next =>
    Reaches (Refers repos) root here ∧ Refers repos here next
  have finite : {here | ∃ next, Along here next}.Finite := by
    refine ((repos.map fun entry => Value.string entry.1).finite_toSet).subset ?_
    rintro here ⟨next, -, name, repo, rfl, described, -⟩
    exact mem_map.mpr ⟨_, mem_of_find described, rfl⟩
  have forward : ∀ {here next}, TransGen Along here next →
      TransGen (Refers repos) here next :=
    fun run => run.lift id fun _ _ step => step.2
  have noLoop : ∀ here, ¬ TransGen Along here here := by
    intro here loop
    obtain ⟨next, ⟨reached, name, repo, rfl, -, -⟩, -⟩ := TransGen.head'_iff.mp loop
    exact acyclic ⟨name, reached, forward loop⟩
  obtain ⟨last, run, final⟩ := (ends_of_acyclic finite noLoop root).exists_final
  have reached : Reaches (Refers repos) root last := run.lift id fun _ _ step => step.2
  exact ⟨last, reached, fun next step => final next ⟨reached, step⟩⟩

/-! ## Following references without a check -/

theorem followRoots_refers (step : Refers repos root next) (fuel : Nat) :
    followRoots toText repos (fuel + 1) root = followRoots toText repos fuel next := by
  obtain ⟨name, repo, rfl, described, field⟩ := step
  have desc : description repos name = .map repo := by rw [description, described, getD_some]
  rw [followRoots, desc]
  show followRoots toText repos fuel ((find (lit "repository") repo).getD .none) = _
  rw [field, getD_some]

theorem followRoots_zero (step : Refers repos root next) :
    followRoots toText repos 0 root = .error .outOfFuel := by
  obtain ⟨name, repo, rfl, described, -⟩ := step
  have desc : description repos name = .map repo := by rw [description, described, getD_some]
  rw [followRoots, desc]

theorem followRoots_final (final : Final (Refers repos) last) (fuel : Nat) :
    followRoots toText repos (fuel + 1) last = targetRepo toText last := by
  cases last with
  | string name =>
    rw [followRoots]
    split
    · next repo desc =>
      have missing : find (lit "repository") repo = none := by
        by_contra present
        obtain ⟨next, field⟩ := Option.ne_none_iff_exists'.mp present
        refine final next ⟨name, repo, rfl, ?_, field⟩
        unfold description at desc
        cases found : find name repos with
        | none =>
          rw [found, getD_none] at desc
          cases desc
        | some value =>
          rw [found, getD_some] at desc
          rw [desc]
      show followRoots toText repos fuel ((find (lit "repository") repo).getD .none) = _
      rw [missing, getD_none]
      cases fuel <;> rfl
    · rfl
  | none => rfl
  | bool value => rfl
  | number value => rfl
  | entity value => rfl
  | list items => rfl
  | map fields => rfl

theorem followRoots_last (run : Reaches (Refers repos) root last)
    (final : Final (Refers repos) last) :
    ∃ bound, ∀ fuel, bound ≤ fuel → followRoots toText repos fuel root = targetRepo toText last := by
  induction run using ReflTransGen.head_induction_on with
  | refl =>
    refine ⟨1, fun fuel enough => ?_⟩
    obtain ⟨fuel, rfl⟩ := Nat.exists_eq_add_of_le' enough
    exact followRoots_final final fuel
  | head step _ later =>
    obtain ⟨bound, returns⟩ := later
    refine ⟨bound + 1, fun fuel enough => ?_⟩
    obtain ⟨fuel, rfl⟩ := Nat.exists_eq_add_of_le' (Nat.lt_of_lt_of_le (Nat.succ_pos _) enough)
    rw [followRoots_refers step]
    exact returns fuel (Nat.le_of_succ_le_succ enough)

theorem followRoots_revisits (revisits : Revisits repos root) (fuel : Nat) :
    followRoots toText repos fuel root = .error .outOfFuel := by
  induction fuel generalizing root with
  | zero =>
    obtain ⟨next, step, -⟩ := revisits.onward
    exact followRoots_zero step
  | succ fuel ih =>
    obtain ⟨next, step, onward⟩ := revisits.onward
    rw [followRoots_refers step]
    exact ih onward

theorem followRoots_stable (returned : followRoots toText repos fuel root = .ok target) :
    followRoots toText repos (fuel + 1) root = .ok target := by
  induction fuel generalizing root with
  | zero =>
    cases root with
    | string name =>
      rw [followRoots] at returned ⊢
      split at returned
      · cases returned
      · next other => simpa [followRoots] using returned
    | none => exact returned
    | bool value => exact returned
    | number value => exact returned
    | entity value => exact returned
    | list items => exact returned
    | map fields => exact returned
  | succ fuel step =>
    cases root with
    | string name =>
      rw [followRoots] at returned ⊢
      split at returned
      · exact step returned
      · exact returned
    | none => exact returned
    | bool value => exact returned
    | number value => exact returned
    | entity value => exact returned
    | list items => exact returned
    | map fields => exact returned

theorem followRoots_ok (returned : followRoots toText repos fuel root = .ok target) :
    ¬ Revisits repos root ∧ ∃ last, Reaches (Refers repos) root last ∧
      Final (Refers repos) last ∧ targetRepo toText last = .ok target := by
  have acyclic : ¬ Revisits repos root := fun revisits => by
    rw [followRoots_revisits revisits] at returned
    cases returned
  obtain ⟨last, run, final⟩ := exists_last acyclic
  obtain ⟨bound, returns⟩ : ∃ bound, ∀ fuel, bound ≤ fuel →
      followRoots toText repos fuel root = targetRepo toText last := followRoots_last run final
  have later : ∀ more, followRoots toText repos (fuel + more) root = .ok target := by
    intro more
    induction more with
    | zero => exact returned
    | succ more step => exact followRoots_stable step
  refine ⟨acyclic, last, run, final, ?_⟩
  rw [← returns (fuel + bound) (Nat.le_add_left _ _)]
  exact later bound

/-! ## What a repository leads to -/

/-- The root of a repository is a computed one that refers to the other repository. -/
def ComputedFrom (toText : Value → Str) (repos : Repos) (name other : Str) : Prop :=
  ∃ root precomputed, Reaches (Refers repos) (.string name) root ∧
    parsePrecomputedRoot toText root = .ok (.ok precomputed) ∧
    precomputed.referencedRepository = other

/-- A repository binds a name to the other repository. -/
def Binds (repos : Repos) (name other : Str) : Prop :=
  ∃ desc bindings, find name repos = some (.map desc) ∧
    find (lit "bindings") desc = some (.map bindings) ∧ ∃ key, (key, .string other) ∈ bindings

/-- A repository has the other one as a layer. -/
def HasLayer (repos : Repos) (name layer : Str) : Prop :=
  ∃ desc, find name repos = some (.map desc) ∧
    ∃ key ∈ altDirs, find (lit key) desc = some (.string layer)

/-- What has to be included along with a repository. -/
def LeadsTo (toText : Value → Str) (repos : Repos) (name other : Str) : Prop :=
  Binds repos name other ∨ ComputedFrom toText repos name other ∨
    ∃ layer, HasLayer repos name layer ∧ ComputedFrom toText repos layer other

/-- The root is to be that of a tree structure, but what it refers to is not a string. -/
def Malformed (toText : Value → Str) (root : Value) : Prop :=
  ∃ fields repo, root = .map fields ∧ Value.get fields "type" .none = .string (lit "tree structure") ∧
    Value.get fields "repo" .none = repo ∧ repo ≠ .none ∧ repo.asString = none ∧
    ∃ absent, parseAbsent toText fields = .ok absent

/-- The references from a repository do not revisit a name, and do not end at a malformed root. -/
def Resolvable (toText : Value → Str) (repos : Repos) (name : Str) : Prop :=
  ¬ Revisits repos (.string name) ∧
    ∀ root, Reaches (Refers repos) (.string name) root → ¬ Malformed toText root

/-- A repository that can be processed: it has no description, or this is a map and the references
from it and from its layers can be followed. -/
def Fine (toText : Value → Str) (repos : Repos) (name : Str) : Prop :=
  description repos name = .none ∨ (∃ desc, find name repos = some (.map desc)) ∧
    Resolvable toText repos name ∧ ∀ layer, HasLayer repos name layer → Resolvable toText repos layer

theorem parse_throws_iff (root : Value) :
    (∃ error, parsePrecomputedRoot toText root = .error error) ↔ Malformed toText root := by
  unfold Malformed
  cases root with
  | map fields =>
    simp only [parsePrecomputedRoot, Value.map.injEq, ↓existsAndEq, true_and]
    split
    · next none => simp [none]
    · next marker type =>
      rw [type]
      by_cases computed : marker = lit "computed"
      · have differ : lit "computed" ≠ lit "tree structure" := by decide
        simp [computed, differ]
      · by_cases tree : marker = lit "tree structure"
        · subst tree
          rw [if_neg computed, if_pos rfl]
          unfold parseTreeStructureRoot
          split
          · next none => simp [none, Except.map]
          · next repo notNone =>
            cases absent : parseAbsent toText fields with
            | error failure => simp [Except.map]
            | ok isAbsent =>
              cases kind : Value.get fields "repo" .none <;>
                simp_all [Except.map, Value.asString]
        · simp [computed, tree]
    · next other notNone notString =>
      refine iff_of_false (by simp) ?_
      rintro ⟨same, -⟩
      exact notString _ same
  | _ => simp [parsePrecomputedRoot]

theorem final_map (fields : List (Str × Value)) : Final (Refers repos) (.map fields) := by
  rintro next ⟨name, repo, same, -⟩
  cases same

theorem map_of_parse {precomputed : PrecomputedRoot}
    (parsed : parsePrecomputedRoot toText root = .ok (.ok precomputed)) :
    ∃ fields, root = .map fields := by
  cases root with
  | map fields => exact ⟨fields, rfl⟩
  | _ => simp [parsePrecomputedRoot] at parsed

theorem targetRepo_ok (returned : targetRepo toText root = .ok target) :
    ¬ Malformed toText root ∧ ∀ other, target = some other ↔ ∃ precomputed,
      parsePrecomputedRoot toText root = .ok (.ok precomputed) ∧
        precomputed.referencedRepository = other := by
  unfold targetRepo at returned
  split at returned
  · cases returned
  · next failure parsed =>
    cases returned
    refine ⟨fun malformed => ?_, fun other => ?_⟩
    · obtain ⟨error, thrown⟩ := (parse_throws_iff root).mpr malformed
      cases parsed.symm.trans thrown
    · simp [parsed]
  · next precomputed parsed =>
    cases returned
    refine ⟨fun malformed => ?_, fun other => ?_⟩
    · obtain ⟨error, thrown⟩ := (parse_throws_iff root).mpr malformed
      cases parsed.symm.trans thrown
    · simp [parsed]

theorem targetRepo_returns (formed : ¬ Malformed toText root) :
    ∃ target, targetRepo toText root = .ok target := by
  unfold targetRepo
  split
  · next error thrown => exact absurd ((parse_throws_iff root).mp ⟨error, thrown⟩) formed
  · exact ⟨_, rfl⟩
  · exact ⟨_, rfl⟩

theorem getTarget_ok (returned : getTargetRepoIfPrecomputed toText repos fuel name = .ok target) :
    Resolvable toText repos name ∧
      ∀ other, target = some other ↔ ComputedFrom toText repos name other := by
  obtain ⟨acyclic, last, run, final, parsed⟩ := followRoots_ok returned
  obtain ⟨formed, refers⟩ := targetRepo_ok parsed
  refine ⟨⟨acyclic, fun root run' malformed => ?_⟩, fun other => (refers other).trans ?_⟩
  · have shape := malformed
    obtain ⟨fields, _, rfl, -⟩ := shape
    cases last_unique run final run' (final_map fields)
    exact formed malformed
  · constructor
    · rintro ⟨precomputed, parsed, same⟩
      exact ⟨last, precomputed, run, parsed, same⟩
    · rintro ⟨root, precomputed, run', isPrecomputed, same⟩
      obtain ⟨fields, rfl⟩ := map_of_parse isPrecomputed
      cases last_unique run final run' (final_map fields)
      exact ⟨precomputed, isPrecomputed, same⟩

theorem getTarget_returns (resolvable : Resolvable toText repos name) :
    ∃ bound target, ∀ fuel, bound ≤ fuel →
      getTargetRepoIfPrecomputed toText repos fuel name = .ok target := by
  obtain ⟨last, run, final⟩ := exists_last resolvable.1
  obtain ⟨target, parsed⟩ := targetRepo_returns (resolvable.2 last run)
  obtain ⟨bound, returns⟩ := followRoots_last run final
  exact ⟨bound, target, fun fuel enough => (returns fuel enough).trans parsed⟩

variable {names seen : List Str}

theorem getTargets_return (resolvable : ∀ name ∈ names, Resolvable toText repos name) :
    ∃ bound targets, ∀ fuel, bound ≤ fuel →
      names.mapM (getTargetRepoIfPrecomputed toText repos fuel) = .ok targets := by
  induction names with
  | nil => exact ⟨0, [], fun _ _ => rfl⟩
  | cons name names step =>
    obtain ⟨first, target, returns⟩ := getTarget_returns (resolvable name mem_cons_self)
    obtain ⟨second, targets, others⟩ := step fun other inside =>
      resolvable other (mem_cons_of_mem _ inside)
    refine ⟨max first second, target :: targets, fun fuel enough => ?_⟩
    obtain ⟨firstEnough, secondEnough⟩ := max_le_iff.mp enough
    rw [mapM_cons, returns fuel firstEnough, others fuel secondEnough]
    rfl

/-! ## One repository -/

theorem mem_boundNames (described : find name repos = some (.map desc)) (other : Str) :
    other ∈ boundNames (Value.get desc "bindings" .none) ↔ Binds repos name other := by
  have field : Value.get desc "bindings" .none = (find (lit "bindings") desc).getD .none := rfl
  constructor
  · intro inside
    unfold boundNames at inside
    split at inside
    · next bindings isMap =>
      obtain ⟨⟨key, value⟩, entry, text⟩ := List.mem_filterMap.mp inside
      have string : value = .string other := by
        cases value with
        | string text' => exact congrArg Value.string (some.inj text)
        | _ => cases text
      refine ⟨desc, bindings, described, ?_, key, string ▸ entry⟩
      rw [field] at isMap
      cases found : find (lit "bindings") desc with
      | none => rw [found] at isMap; cases isMap
      | some stored => rw [found] at isMap; exact congrArg some isMap
    · cases inside
  · rintro ⟨_, bindings, described', found, key, entry⟩
    cases described.symm.trans described'
    rw [field, found]
    exact List.mem_filterMap.mpr ⟨_, entry, rfl⟩

theorem mem_layers (described : find name repos = some (.map desc)) (layer : Str) :
    layer ∈ (altDirs.filterMap fun key => (Value.get desc key .none).asString) ↔
      HasLayer repos name layer := by
  have text : ∀ key : String, (Value.get desc key .none).asString = some layer ↔
      find (lit key) desc = some (.string layer) := by
    intro key
    unfold Value.get
    cases find (lit key) desc with
    | none => simp [Value.asString]
    | some value => cases value <;> simp [Value.asString]
  rw [List.mem_filterMap]
  constructor
  · rintro ⟨key, listed, found⟩
    exact ⟨desc, described, key, listed, (text key).mp found⟩
  · rintro ⟨_, described', key, listed, found⟩
    cases described.symm.trans described'
    exact ⟨key, listed, (text key).mpr found⟩

theorem description_eq_map :
    description repos name = .map desc ↔ find name repos = some (.map desc) := by
  unfold description
  cases find name repos with
  | none => simp
  | some value => simp

theorem processRepo_map (described : find name repos = some (.map desc)) (fuel : Nat) :
    processRepo toText repos fuel name = (do
      let layerNames := altDirs.filterMap fun key => (Value.get desc key .none).asString
      let precomputed ← getTargetRepoIfPrecomputed toText repos fuel name
      let layerTargets ← layerNames.mapM (getTargetRepoIfPrecomputed toText repos fuel)
      .ok (precomputed.toList ++ boundNames (Value.get desc "bindings" .none) ++
        layerTargets.reduceOption, layerNames)) := by
  rw [processRepo, description_eq_map.mpr described]
  rfl

theorem mem_layerTargets {targets : List (Option Str)}
    (returned : names.mapM (getTargetRepoIfPrecomputed toText repos fuel) = .ok targets) :
    (∀ name ∈ names, Resolvable toText repos name) ∧ ∀ other, other ∈ targets.reduceOption ↔
      ∃ name ∈ names, ComputedFrom toText repos name other := by
  have calls := Loops.mapM_eq_ok.mp returned
  clear returned
  induction calls with
  | nil => exact ⟨nofun, fun other => by simp [List.reduceOption]⟩
  | @cons name target names targets called _ step =>
    obtain ⟨resolvable, computed⟩ := getTarget_ok called
    refine ⟨forall_mem_cons.mpr ⟨resolvable, step.1⟩, fun other => ?_⟩
    rw [List.reduceOption_mem_iff, mem_cons, List.exists_mem_cons_iff, ← computed, ← step.2,
      List.reduceOption_mem_iff]
    exact or_congr_left eq_comm

theorem described_of_leadsTo {other : Str} (leads : LeadsTo toText repos name other) :
    ∃ desc, find name repos = some (.map desc) := by
  obtain ⟨desc, _, described, -⟩ | ⟨root, precomputed, run, parsed, -⟩ |
    ⟨_, ⟨desc, described, -⟩, -⟩ := leads
  · exact ⟨desc, described⟩
  · obtain ⟨fields, rfl⟩ := map_of_parse parsed
    obtain same | ⟨next, ⟨_, repo, same, described, -⟩, -⟩ := run.cases_head
    · cases same
    · cases same
      exact ⟨repo, described⟩
  · exact ⟨desc, described⟩

theorem processRepo_expands :
    Expands (processRepo toText repos) (LeadsTo toText repos) (HasLayer repos)
      (Fine toText repos) where
  sound {fuel name next noted} returned := by
    cases desc : description repos name with
    | none =>
      rw [processRepo, desc] at returned
      cases returned
      have notMap : ∀ fields, find name repos ≠ some (.map fields) := fun fields described => by
        cases desc.symm.trans (description_eq_map.mpr described)
      refine ⟨.inl desc, fun other => ?_, fun layer => ?_⟩
      · refine iff_of_false not_mem_nil fun leads => ?_
        obtain ⟨fields, described⟩ := described_of_leadsTo leads
        exact notMap fields described
      · refine iff_of_false not_mem_nil fun ⟨fields, described, _⟩ => ?_
        exact notMap fields described
    | map fields =>
      have described := description_eq_map.mp desc
      rw [processRepo_map described] at returned
      cases own : getTargetRepoIfPrecomputed toText repos fuel name with
      | error stop => rw [own] at returned; cases returned
      | ok precomputed =>
        rw [own] at returned
        cases called : (altDirs.filterMap fun key =>
            (Value.get fields key .none).asString).mapM
              (getTargetRepoIfPrecomputed toText repos fuel) with
        | error stop =>
          simp only [called, bind, Except.bind] at returned
          cases returned
        | ok layerTargets =>
          simp only [called, bind, Except.bind, ok.injEq, Prod.mk.injEq] at returned
          obtain ⟨rfl, rfl⟩ := returned
          obtain ⟨resolvable, computed⟩ := getTarget_ok own
          obtain ⟨layersResolvable, layersComputed⟩ := mem_layerTargets called
          refine ⟨.inr ⟨⟨fields, described⟩, resolvable, fun layer isLayer => ?_⟩,
            fun other => ?_, mem_layers described⟩
          · exact layersResolvable layer ((mem_layers described layer).mpr isLayer)
          · rw [mem_append, mem_append, Option.mem_toList, computed,
              mem_boundNames described, layersComputed, or_comm (b := Binds repos name other),
              or_assoc]
            simp only [mem_layers described]
            rfl
    | _ =>
      -- The bindings are looked up in the description without a check.
      rw [processRepo, desc] at returned
      cases own : getTargetRepoIfPrecomputed toText repos fuel name with
      | error stop => simp [own, bind, Except.bind] at returned
      | ok precomputed => simp [own, bind, Except.bind, getField, rethrow] at returned
  complete {name} fine := by
    obtain missing | ⟨⟨desc, described⟩, resolvable, layersResolvable⟩ := fine
    · exact ⟨0, ([], []), fun fuel _ => by rw [processRepo, missing]⟩
    · obtain ⟨first, target, returns⟩ := getTarget_returns resolvable
      obtain ⟨second, targets, others⟩ := getTargets_return fun layer inside =>
        layersResolvable layer ((mem_layers described layer).mp inside)
      refine ⟨max first second, (target.toList ++ boundNames (Value.get desc "bindings" .none) ++
        targets.reduceOption, altDirs.filterMap fun key => (Value.get desc key .none).asString),
          fun fuel enough => ?_⟩
      obtain ⟨firstEnough, secondEnough⟩ := max_le_iff.mp enough
      rw [processRepo_map described, returns fuel firstEnough]
      simp only [bind, Except.bind, others fuel secondEnough]

theorem finite_leading : {name | ∃ other, LeadsTo toText repos name other}.Finite := by
  refine ((repos.map fst).finite_toSet).subset ?_
  rintro name ⟨other, leads⟩
  obtain ⟨desc, described⟩ := described_of_leadsTo leads
  exact mem_map.mpr ⟨_, mem_of_find described, rfl⟩

/-! ## Resolving with a check -/

theorem reaches_of_resolve (resolved : resolveRepoFrom repos root seen = .ok (some last)) :
    Reaches (Refers repos) root last ∧ last.asString = none := by
  induction bound : (unseen repos seen).length using Nat.strongRecOn generalizing root seen with
  | ind _ step =>
    cases root with
    | string name =>
      rw [resolveRepoFrom] at resolved
      split at resolved
      · cases resolved
      · next fresh =>
        split at resolved
        · cases resolved
        · next repo found =>
          split at resolved
          · cases resolved
          · next next field =>
            have less := unseen_lt repos fresh (mem_keys.mpr (by rw [found]; rfl))
            obtain ⟨run, notName⟩ := step _ (bound ▸ less) resolved rfl
            exact ⟨.head ⟨name, repo, rfl, found, field⟩ run, notName⟩
        · cases resolved
    | _ =>
      rw [resolveRepoFrom] at resolved
      · cases resolved
        exact ⟨.refl, rfl⟩
      · simp

theorem resolve_of_last (run : Reaches (Refers repos) root last) (notName : last.asString = none)
    (acyclic : ¬ Revisits repos root)
    (fresh : ∀ name ∈ seen, ¬ Reaches (Refers repos) root (.string name)) :
    resolveRepoFrom repos root seen = .ok (some last) := by
  induction run using ReflTransGen.head_induction_on generalizing seen with
  | refl =>
    cases last with
    | string name => cases notName
    | _ => simp [resolveRepoFrom]
  | @head root next step run later =>
    have onward : ¬ Revisits repos next := by
      rintro ⟨name, run, loop⟩
      exact acyclic ⟨name, .head step run, loop⟩
    obtain ⟨name, repo, rfl, found, field⟩ := step
    have outside : name ∉ seen := fun inside => fresh name inside .refl
    have step : Refers repos (.string name) next := ⟨name, repo, rfl, found, field⟩
    have rest : resolveRepoFrom repos next (name :: seen) = .ok (some last) :=
      later onward (forall_mem_cons.mpr
        ⟨fun back => acyclic ⟨name, .refl, TransGen.head'_iff.mpr ⟨next, step, back⟩⟩,
          fun other inside run => fresh other inside (.head step run)⟩)
    rw [resolveRepoFrom, if_neg outside]
    split
    · next missing => cases found.symm.trans missing
    · next desc found' =>
      cases found.symm.trans found'
      split
      · next missing => cases field.symm.trans missing
      · next root field' =>
        cases field.symm.trans field'
        exact rest
    · next other notMap found' =>
      cases found.symm.trans found'
      exact absurd rfl (notMap repo)

theorem resolveRepo_eq_none (root : Value) :
    resolveRepo repos root = none ↔ Revisits repos root ∨ ReachesUnknown repos root := by
  have final : ∀ {last : Value}, last.asString = none → Final (Refers repos) last := by
    rintro last notName next ⟨name, repo, rfl, -⟩
    cases notName
  constructor
  · intro failed
    by_contra fine
    obtain ⟨acyclic, known⟩ := not_or.mp fine
    obtain ⟨last, run, ends⟩ := exists_last acyclic
    have notName : last.asString = none := by
      cases last with
      | string name => exact absurd ⟨name, run, ends⟩ known
      | _ => rfl
    have resolved : resolveRepoFrom repos root [] = .ok (some last) :=
      resolve_of_last run notName acyclic nofun
    rw [resolveRepo, resolved] at failed
    cases failed
  · intro bad
    by_contra success
    have resolved : ∃ last, resolveRepoFrom repos root [] = .ok (some last) := by
      unfold resolveRepo at success
      split at success
      · exact absurd rfl success
      · next result returned =>
        obtain ⟨last, rfl⟩ := Option.ne_none_iff_exists'.mp success
        exact ⟨last, returned⟩
    obtain ⟨last, resolved⟩ := resolved
    obtain ⟨run, notName⟩ := reaches_of_resolve resolved
    obtain revisits | ⟨name, run', ends⟩ := bad
    · have endless : Revisits repos last := Runs.invariant revisits
        (fun {here next} revisits step => by
          obtain ⟨other, step', onward⟩ := revisits.onward
          exact step.unique step' ▸ onward) run
      obtain ⟨next, step, -⟩ := endless.onward
      exact final notName next step
    · cases last_unique run (final notName) run' ends
      cases notName

/-! ## All repositories -/

/-- The repositories to include are the least set that has the main one and what its repositories
lead to; those to set up are these and their layers. -/
structure IsClosure (toText : Value → Str) (repos : Repos) (main : Str) (result : SetupRepos) :
    Prop where
  included : IsLeast {names : Set Str | main ∈ names ∧
    ∀ name ∈ names, ∀ other, LeadsTo toText repos name other → other ∈ names}
    {name | name ∈ result.toInclude}
  setUp : ∀ name, name ∈ result.toSetup ↔
    name ∈ result.toInclude ∨ ∃ other ∈ result.toInclude, HasLayer repos other name
  once : result.toInclude.Nodup ∧ result.toSetup.Nodup

theorem closure_of_returned {main : Str} {result : SetupRepos}
    (returned : reachableRepositories toText repos fuel main = .ok result) :
    IsClosure toText repos main result ∧
      ∀ name, Reach (LeadsTo toText repos) main name → Fine toText repos name := by
  unfold reachableRepositories at returned
  split at returned
  · cases returned
  · next included layerNames ran =>
    cases returned
    obtain ⟨once, reached, noted, fine⟩ := run_spec processRepo_expands ran
    refine ⟨⟨⟨⟨?_, ?_⟩, ?_⟩, fun name => ?_, once, List.nodup_dedup _⟩, fine⟩
    · exact (reached main).mpr .refl
    · exact fun name inside other leads =>
        (reached other).mpr (((reached name).mp inside).tail leads)
    · intro names closed name inside
      exact Runs.invariant closed.1 (fun {here next} inside leads => closed.2 here inside next leads)
        ((reached name).mp inside)
    · rw [List.mem_dedup, mem_append, noted, or_comm]
      simp only [reached]

/-- The closure is returned exactly if all repositories in it can be processed; and a description
cannot be resolved exactly if its references revisit a name or reach an unknown one. -/
theorem reachable_repositories_iff (toText : Value → Str) (repos : Repos) (main : Str) :
    ((∃ fuel result, reachableRepositories toText repos fuel main = .ok result ∧
        IsClosure toText repos main result) ↔
      ∀ name, Reach (LeadsTo toText repos) main name → Fine toText repos name) ∧
    ∀ root, resolveRepo repos root = none ↔ Revisits repos root ∨ ReachesUnknown repos root := by
  refine ⟨⟨?_, fun fine => ?_⟩, resolveRepo_eq_none⟩
  · rintro ⟨fuel, result, returned, -⟩
    exact (closure_of_returned returned).2
  · obtain ⟨fuel, ⟨included, layerNames⟩, ran⟩ :=
      (run_returns_iff processRepo_expands finite_leading).mpr fine
    have returned : reachableRepositories toText repos fuel main =
        .ok { toSetup := (layerNames ++ included).dedup, toInclude := included } := by
      rw [reachableRepositories, ran]
    exact ⟨fuel, _, returned, (closure_of_returned returned).1⟩

/-- Two repositories whose roots are given by reference to each other. -/
def cyclicRepos : Repos :=
  [(lit "a", .map [(lit "repository", .string (lit "b"))]),
    (lit "b", .map [(lit "repository", .string (lit "a"))])]

theorem cyclic_references_diverge :
    ¬ ∃ fuel result, reachableRepositories (fun _ => []) cyclicRepos fuel (lit "a") =
      .ok result := by
  rintro ⟨fuel, result, returned⟩
  have first : Refers cyclicRepos (.string (lit "a")) (.string (lit "b")) :=
    ⟨lit "a", [(lit "repository", .string (lit "b"))], rfl, by decide, by decide⟩
  have second : Refers cyclicRepos (.string (lit "b")) (.string (lit "a")) :=
    ⟨lit "b", [(lit "repository", .string (lit "a"))], rfl, by decide, by decide⟩
  have described : find (lit "a") cyclicRepos =
      some (.map [(lit "repository", .string (lit "b"))]) := by decide
  obtain missing | ⟨-, ⟨acyclic, -⟩, -⟩ := (closure_of_returned returned).2 (lit "a") .refl
  · rw [description_eq_map.mpr described] at missing
    cases missing
  · exact acyclic ⟨lit "a", .refl, .tail (.single first) second⟩

end Jst.Verif.ReachableRepos
