import Jst.Verif.RenamedRepos
/-!
# Deduplication preserves what repositories denote

The comparison of repositories leaves out the pragma `special`, and renaming leaves out expression
roots that are given by name and computed roots that are not those of `repository`. Where neither
matters, and only there, everything that is left denotes the same as before.
-/
namespace Jst.Verif.Deduplication

open SortedMap Tools Bisimulation BisimilarRepos RenamedRepos
open Option (Rel)

variable {Value : Type}

variable {other : Str}

section Denotation

variable [EmptyCollection Value] {repos : Repositories Value} {keep : List Str} {depth : Nat}

/-! ## The new configuration denotes the same -/

section Same

variable [DecidableEq Value] {merging : Merging Value} {new : Repositories Value}

/-- What is known of the new configuration. -/
structure Renewed (repos : Repositories Value) (keep : List Str) (depth : Nat)
    (merging : Merging Value) (new : Repositories Value) : Prop where
  renames : Renames repos keep depth merging
  regular : Regular repos depth
  closed : ∀ name desc, find name repos = some desc → ∀ other, Mentions desc other →
    (find other repos).isSome
  finds : ∀ name, find name new =
    if (find name merging.renames).isSome then none
    else (find name repos).bind (newDescription repos merging depth name)

/-- The root is described in the new configuration as before. -/
structure Matches (repos new : Repositories Value) (depth : Nat) (root root' : Root Value) : Prop where
  location : normal root'.location = normal root.location
  pragma : special root' = special root
  repo : Rel (fun old other => (find other new).isSome ∧ Equivalent repos depth old other)
    (computedRepo root) (computedRepo root')

section

variable (renewed : Renewed repos keep depth merging new)
include renewed

variable {name : Str}

theorem Renewed.description (left : Left repos keep depth name)
    {desc : Repository Value} (found : find name repos = some desc) :
    ∃ desc', find name new = some desc' ∧
      NewDescription repos keep depth merging.renames desc desc' := by
  obtain ⟨desc', made, holds⟩ := newDescription_spec renewed.renames renewed.regular found
  refine ⟨desc', ?_, holds⟩
  rw [renewed.finds, renewed.renames.left_iff.mp left, found]
  exact made

theorem Renewed.isSome_iff :
    (find name new).isSome ↔ Left repos keep depth name ∧ (find name repos).isSome := by
  constructor
  · intro isNew
    have finds := renewed.finds name
    split at finds
    · rw [finds] at isNew
      cases isNew
    · next notRenamed =>
      refine ⟨renewed.renames.left_iff.mpr (not_isSome_iff_eq_none.mp notRenamed), ?_⟩
      cases found : find name repos with
      | some desc => rfl
      | none =>
        rw [finds, found] at isNew
        cases isNew
  · rintro ⟨left, isRepo⟩
    obtain ⟨desc, found⟩ := isSome_iff_exists.mp isRepo
    obtain ⟨desc', isNew, _⟩ := renewed.description left found
    rw [isNew]
    rfl

theorem Renewed.isSome_renamed (isRepo : (find name repos).isSome) :
    (find (renamed merging.renames name) new).isSome :=
  renewed.isSome_iff.mpr ⟨renewed.renames.left_renamed name, renewed.renames.isSome_renamed isRepo⟩

theorem Renewed.equivalent_renamed (same : ∀ rep, Merged repos keep depth name rep →
      SameSpecials repos depth (some name) (some rep)) :
    Equivalent repos depth name (renamed merging.renames name) := by
  cases found : find name merging.renames with
  | none =>
    rw [renewed.renames.renamed_left (renewed.renames.left_iff.mpr found)]
    exact Bisimilar.refl _
  | some rep =>
    have merged := (renewed.renames.find_iff name rep).mp found
    rw [renewed.renames.renamed_merged merged]
    exact equivalent_of_alike merged.represents.alike (same rep merged)

end

omit [DecidableEq Value] in
variable {root root' : Root Value}

theorem matches_root {rename : Str → Str} (location : normal root'.location = normal root.location)
    (pragma : special root' = special root)
    (repo : computedRepo root' = (computedRepo root).map rename)
    (leads : ∀ other, computedRepo root = some other →
      (find (rename other) new).isSome ∧ Equivalent repos depth other (rename other)) :
    Matches repos new depth root root' := by
  refine ⟨location, pragma, ?_⟩
  rw [repo]
  cases own : computedRepo root with
  | none => exact .none
  | some other => exact .some (leads other own)

theorem Renewed.inPlace (renewed : Renewed repos keep depth merging new)
    (harmless : Harmless repos keep depth) {name : Str} (left : Left repos keep depth name)
    {desc : Repository Value} (found : find name repos = some desc)
    (own : desc.repository = .root root) :
    ∃ desc' root', find name new = some desc' ∧ desc'.repository = .root root' ∧
      Matches repos new depth root root' := by
  obtain ⟨desc', isNew, holds⟩ := renewed.description left found
  have rewritten := holds.repository
  rw [own] at rewritten
  cases isRoot : desc'.repository with
  | named other =>
    rw [isRoot] at rewritten
    cases rewritten
  | root root' =>
    rw [isRoot] at rewritten
    cases rewritten with
    | root location pragma repo =>
      refine ⟨desc', root', isNew, isRoot, matches_root location pragma repo ?_⟩
      intro other computed
      have isRepo := renewed.closed name desc found other
        (.computed .repository root (congrArg some own) computed)
      exact ⟨renewed.isSome_renamed isRepo, renewed.equivalent_renamed fun rep merged =>
        harmless.computed name desc found left root other rep own computed merged⟩

omit [DecidableEq Value] in
theorem Matches.of_same {first second : Root Value}
    (matches' : Matches repos new depth second root')
    (location : normal second.location = normal first.location)
    (pragma : special second = special first)
    (repo : Rel (Equivalent repos depth) (computedRepo first) (computedRepo second)) :
    Matches repos new depth first root' := by
  refine ⟨matches'.location.trans location, matches'.pragma.trans pragma, ?_⟩
  have later := matches'.repo
  generalize computedRepo first = left at repo
  generalize computedRepo second = middle at repo later
  generalize computedRepo root' = right at later
  cases repo with
  | none => exact later
  | some alike =>
    cases later with
    | some holds => exact .some ⟨holds.1, alike.trans holds.2⟩

omit [EmptyCollection Value] [DecidableEq Value] in
theorem resolved_inPlace {fuel : Nat} {name : Str} {desc : Repository Value}
    (found : find name repos = some desc) (own : desc.repository = .root root) :
    getRoot repos (fuel + 1) name .repository none = some root := by
  unfold getRoot
  rw [found]
  simp only [Repository.reference, own]

section

variable (renewed : Renewed repos keep depth merging new) (harmless : Harmless repos keep depth)
include renewed harmless

theorem Renewed.redirect {name final : Str} (left : Left repos keep depth name)
    {desc : Repository Value} (found : find name repos = some desc) {rootName : RootName}
    (notExpression : rootName ≠ .expressionRoot)
    (isNamed : desc.reference rootName = some (.named other))
    (notLeft : ¬ Left repos keep depth other)
    (ends : finalRootReference repos [] depth other = some final) {fuel : Nat}
    (atMost : fuel ≤ depth) {root : Root Value}
    (isRoot : getRoot repos fuel other .repository none = some root) :
    ∃ root', getRoot new fuel (renamed merging.renames final) .repository none = some root' ∧
      Matches repos new depth root root' := by
  obtain ⟨same, finalDesc, ends', foundFinal, own⟩ := final_of_getRoot isRoot
  obtain rfl : final = same := some.inj (ends.symm.trans (final_mono atMost ends'))
  cases fuel with
  | zero => cases isRoot
  | succ fuel =>
    cases renamedTo : find final merging.renames with
    | none =>
      have leftFinal := renewed.renames.left_iff.mpr renamedTo
      obtain ⟨desc', root', isNew, own', matched⟩ :=
        renewed.inPlace harmless leftFinal foundFinal own
      rw [renewed.renames.renamed_left leftFinal]
      exact ⟨root', resolved_inPlace isNew own', matched⟩
    | some rep =>
      have merged := (renewed.renames.find_iff final rep).mp renamedTo
      have hasOne : hasRoot repos rep = true := by
        refine merged.represents.rooted final merged.isRepo (Bisimilar.refl _) ?_
        unfold hasRoot
        rw [foundFinal]
        simp only [own]
      obtain ⟨repDesc, foundRep⟩ := isSome_iff_exists.mp merged.represents.isRepo
      have inRep : ∃ repRoot, repDesc.repository = .root repRoot := by
        unfold hasRoot at hasOne
        rw [foundRep] at hasOne
        cases isRef : repDesc.repository with
        | named _ =>
          simp only [isRef] at hasOne
          cases hasOne
        | root repRoot => exact ⟨repRoot, rfl⟩
      obtain ⟨repRoot, ownRep⟩ := inRep
      obtain ⟨desc', root', isNew, own', matched⟩ :=
        renewed.inPlace harmless merged.represents.left foundRep ownRep
      rw [renewed.renames.renamed_merged merged]
      refine ⟨root', resolved_inPlace isNew own', ?_⟩
      -- both roots are compared as equal, and have the same special pragmas
      have pragmas := harmless.named name desc found left rootName other notExpression isNamed
        notLeft final rep ends merged
      cases depth with
      | zero => omega
      | succ more =>
        have rootFinal : resolved repos (more + 1) final .repository = some root :=
          resolved_inPlace foundFinal own
        have rootRep : resolved repos (more + 1) rep .repository = some repRoot :=
          resolved_inPlace foundRep ownRep
        have labels := congrFun (congrArg snd merged.represents.alike.label) .repository
        have sameSpecial := pragmas.root
        simp only [system, specials, rootFinal, rootRep, map_some, some.injEq] at labels sameSpecial
        refine matched.of_same (congrArg fst labels).symm sameSpecial.symm ?_
        have next := (bisimilar_isBisimulation _ final rep merged.represents.alike).2
          (.computed .repository)
        have later := pragmas.computed
        have nextFinal : follow repos (more + 1) final (.computed .repository) =
            computedRepo root := by
          rw [follow, rootFinal, bind_some]
        have nextRep : follow repos (more + 1) rep (.computed .repository) =
            computedRepo repRoot := by
          rw [follow, rootRep, bind_some]
        change Rel _ (follow repos (more + 1) final (.computed .repository))
          (follow repos (more + 1) rep (.computed .repository)) at next
        rw [nextFinal, nextRep] at next later
        generalize computedRepo root = first at next later
        generalize computedRepo repRoot = second at next later
        cases next with
        | none => exact .none
        | some alike => exact .some (equivalent_of_alike alike later)

theorem Renewed.getRoot_matches {fuel : Nat} (atMost : fuel ≤ depth) {name : Str}
    (left : Left repos keep depth name) {root : Root Value}
    (isRoot : getRoot repos fuel name .repository none = some root) :
    ∃ root', getRoot new fuel name .repository none = some root' ∧
      Matches repos new depth root root' := by
  induction fuel generalizing name with
  | zero => cases isRoot
  | succ fuel step =>
    have inside : ∃ desc, find name repos = some desc := by
      unfold getRoot at isRoot
      cases found : find name repos with
      | none =>
        rw [found] at isRoot
        cases isRoot
      | some desc => exact ⟨desc, rfl⟩
    obtain ⟨desc, found⟩ := inside
    cases own : desc.repository with
    | root inPlace =>
      rw [resolved_inPlace found own] at isRoot
      cases isRoot
      obtain ⟨desc', root', isNew, own', matched⟩ := renewed.inPlace harmless left found own
      exact ⟨root', resolved_inPlace isNew own', matched⟩
    | named other =>
      have isRoot' : getRoot repos fuel other .repository none = some root := by
        unfold getRoot at isRoot
        rw [found] at isRoot
        simp only [Repository.reference, own] at isRoot
        exact isRoot
      obtain ⟨desc', isNew, holds⟩ := renewed.description left found
      have rewritten := holds.repository
      rw [own] at rewritten
      have unfoldNew : ∀ next, desc'.repository = .named next →
          getRoot new (fuel + 1) name .repository none = getRoot new fuel next .repository none := by
        intro next isNext
        rw [getRoot, isNew]
        simp only [Repository.reference, isNext]
      generalize isRef : desc'.repository = reference at rewritten
      cases rewritten with
      | left leftOther =>
        rw [unfoldNew other isRef]
        exact step (by omega) leftOther isRoot'
      | @redirect _ final merged ends =>
        rw [unfoldNew _ isRef]
        have first : desc.reference .repository = some (.named other) := congrArg some own
        exact renewed.redirect harmless left found (by decide) first merged ends (by omega) isRoot'

theorem Renewed.later_matches {name : Str} (left : Left repos keep depth name)
    {desc desc' : Repository Value} (found : find name repos = some desc)
    (isNew : find name new = some desc') {rootName : RootName} (notFirst : rootName ≠ .repository)
    (rewritten : Rel (Rewritten repos keep depth merging.renames id)
      (desc.reference rootName) (desc'.reference rootName)) {default default' : Option (Root Value)}
    (defaults : ∀ root, default = some root → ∃ root', default' = some root' ∧
      Matches repos new depth root root') {root : Root Value}
    (isRoot : getRoot repos depth name rootName default = some root) :
    ∃ root', getRoot new depth name rootName default' = some root' ∧
      Matches repos new depth root root' := by
  have leads : ∀ inPlace other, desc.reference rootName = some (.root inPlace) →
      computedRepo inPlace = some other →
      (find other new).isSome ∧ Equivalent repos depth other other := by
    intro inPlace other own computed
    have isRepo := renewed.closed name desc found other (.computed rootName inPlace own computed)
    have leftOther := harmless.inPlace name desc found left rootName inPlace other notFirst own
      computed
    exact ⟨renewed.isSome_iff.mpr ⟨leftOther, isRepo⟩, Bisimilar.refl _⟩
  cases fuelIs : depth with
  | zero =>
    rw [fuelIs] at isRoot
    cases isRoot
  | succ fuel =>
    rw [fuelIs] at isRoot
    unfold getRoot at isRoot ⊢
    rw [found] at isRoot
    rw [isNew]
    simp only at isRoot ⊢
    generalize own : desc.reference rootName = reference at rewritten isRoot
    generalize own' : desc'.reference rootName = reference' at rewritten
    cases rewritten with
    | none =>
      rw [← fuelIs]
      exact defaults root isRoot
    | some changed =>
      cases changed with
      | @root inPlace inPlace' location pragma repo =>
        cases isRoot
        rw [← fuelIs]
        exact ⟨inPlace', rfl, matches_root location pragma repo fun other computed =>
          leads root other own computed⟩
      | left leftOther =>
        have matched := renewed.getRoot_matches harmless (by omega : fuel ≤ depth) leftOther isRoot
        rw [fuelIs] at matched
        exact matched
      | redirect merged ends =>
        by_cases expression : rootName = .expressionRoot
        · subst expression
          exact absurd (harmless.expressionRoot name desc found left _ own) merged
        · have matched := renewed.redirect harmless left found expression own merged ends
            (by omega : fuel ≤ depth) isRoot
          rw [fuelIs] at matched
          exact matched

variable {name : Str} {desc : Repository Value}

theorem Renewed.resolved_matches (left : Left repos keep depth name)
    (found : find name repos = some desc) (rootName : RootName)
    (isRoot : resolved repos depth name rootName = some root) :
    ∃ root', resolved new depth name rootName = some root' ∧
      Matches repos new depth root root' := by
  obtain ⟨desc', isNew, holds⟩ := renewed.description left found
  have expression := holds.later harmless left found .expressionRoot (by decide)
  have repository := fun root isRoot =>
    @Renewed.getRoot_matches _ _ _ _ _ _ _ _ renewed harmless depth (le_refl _) name left root isRoot
  have targetRoot := fun root isRoot =>
    @Renewed.later_matches _ _ _ _ _ _ _ _ renewed harmless name left desc desc' found isNew
      .targetRoot (by decide) holds.targetRoot _ _ repository root isRoot
  have ruleRoot := fun root isRoot =>
    @Renewed.later_matches _ _ _ _ _ _ _ _ renewed harmless name left desc desc' found isNew
      .ruleRoot (by decide) holds.ruleRoot _ _ targetRoot root isRoot
  cases rootName with
  | repository => exact repository root isRoot
  | targetRoot => exact targetRoot root isRoot
  | ruleRoot => exact ruleRoot root isRoot
  | expressionRoot =>
    exact renewed.later_matches harmless left found isNew (by decide) expression ruleRoot isRoot

theorem Renewed.follow_matches (left : Left repos keep depth name)
    (found : find name repos = some desc) (link : Link) :
    Rel (fun old other => (find other new).isSome ∧ Equivalent repos depth old other)
      (follow repos depth name link) (follow new depth name link) := by
  cases link with
  | computed rootName =>
    have isSome : (find name repos).isSome := by
      rw [found]
      rfl
    obtain ⟨root, isRoot⟩ := isSome_iff_exists.mp (renewed.regular.resolves name isSome rootName)
    obtain ⟨root', isRoot', matched⟩ := renewed.resolved_matches harmless left found rootName isRoot
    rw [follow, follow, isRoot, isRoot', bind_some, bind_some]
    exact matched.repo
  | binding bound =>
    obtain ⟨desc', isNew, holds⟩ := renewed.description left found
    rw [follow, follow, found, isNew, bind_some, bind_some, holds.bindings]
    cases leads : find bound (bindingsOf desc) with
    | none => exact .none
    | some other =>
      have isRepo := renewed.closed name desc found other (.binding bound leads)
      exact .some ⟨renewed.isSome_renamed isRepo, renewed.equivalent_renamed fun rep merged =>
        harmless.bindings name desc found left bound other rep leads merged⟩

theorem Renewed.label_eq (left : Left repos keep depth name) (found : find name repos = some desc) :
    (meaning Value depth).label (repos, name) = (meaning Value depth).label (new, name) := by
  obtain ⟨desc', isNew, holds⟩ := renewed.description left found
  have isSome : (find name repos).isSome := by
    rw [found]
    rfl
  have files : (find name repos).map fileNames = (find name new).map fileNames := by
    rw [found, isNew, map_some, map_some, holds.files]
  refine Prod.ext files (funext fun rootName => ?_)
  obtain ⟨root, isRoot⟩ := isSome_iff_exists.mp (renewed.regular.resolves name isSome rootName)
  obtain ⟨root', isRoot', matched⟩ := renewed.resolved_matches harmless left found rootName isRoot
  simp only [meaning, isRoot, isRoot', map_some, matched.location, matched.pragma]

theorem Renewed.same (isNew : (find name new).isSome) :
    Bisimilar (meaning Value depth) (repos, name) (new, name) := by
  refine ⟨fun first second => ∃ old other, first = (repos, old) ∧ second = (new, other) ∧
    (find other new).isSome ∧ Equivalent repos depth old other, ?_, name, name, rfl, rfl, isNew,
    Bisimilar.refl _⟩
  rintro _ _ ⟨old, other, rfl, rfl, isOther, alike⟩
  obtain ⟨left, isRepo⟩ := renewed.isSome_iff.mp isOther
  obtain ⟨desc, found⟩ := isSome_iff_exists.mp isRepo
  refine ⟨alike.label.trans (renewed.label_eq harmless left found), fun link => ?_⟩
  have inside := (bisimilar_isBisimulation _ _ _ alike).2 link
  have across := renewed.follow_matches harmless left found link
  change Rel _ ((follow repos depth old link).map _)
    ((follow repos depth other link).map _) at inside
  change Rel _ ((follow repos depth old link).map _) ((follow new depth other link).map _)
  generalize follow repos depth old link = first at inside
  generalize follow repos depth other link = second at inside across
  generalize follow new depth other link = third at across
  cases across with
  | none =>
    cases first with
    | none => exact .none
    | some _ => cases inside
  | some holds =>
    cases first with
    | none => cases inside
    | some _ =>
      cases inside with
      | some alike => exact .some ⟨_, _, rfl, rfl, holds.1, alike.trans holds.2⟩

theorem Renewed.closed_new {desc' : Repository Value}
    (isNew : find name new = some desc') (mentions : Mentions desc' other) :
    (find other new).isSome := by
  have isSome : (find name new).isSome := by
    rw [isNew]
    rfl
  obtain ⟨left, isRepo⟩ := renewed.isSome_iff.mp isSome
  obtain ⟨desc, found⟩ := isSome_iff_exists.mp isRepo
  obtain ⟨same, isNew', holds⟩ := renewed.description left found
  obtain rfl : desc' = same := some.inj (isNew.symm.trans isNew')
  have redirected : ∀ {other final : Str}, finalRootReference repos [] depth other = some final →
      (find (renamed merging.renames final) new).isSome := by
    intro other final ends
    have isFinal : ∀ fuel other, finalRootReference repos [] fuel other = some final →
        (find final repos).isSome := by
      intro fuel
      induction fuel with
      | zero => exact fun _ impossible => by cases impossible
      | succ fuel step =>
        intro other ends
        unfold finalRootReference at ends
        cases here : find other repos with
        | none =>
          rw [here] at ends
          cases ends
        | some desc =>
          rw [here] at ends
          simp only at ends
          cases own : desc.repository with
          | named next =>
            rw [own] at ends
            exact step next ends
          | root root =>
            rw [own] at ends
            obtain rfl : other = final := some.inj ends
            rw [here]
            rfl
    exact renewed.isSome_renamed (isFinal depth other ends)
  -- a root field of the old configuration, for what is left of it in the new one
  have later : ∀ rootName, rootName ≠ .repository →
      Rel (Rewritten repos keep depth merging.renames id) (desc.reference rootName)
        (desc'.reference rootName) →
      (∀ other, desc'.reference rootName = some (.named other) → (find other new).isSome) ∧
      ∀ root other, desc'.reference rootName = some (.root root) → computedRepo root = some other →
        (find other new).isSome := by
    intro rootName notFirst rewritten
    constructor
    · intro other isNamed
      rw [isNamed] at rewritten
      obtain ⟨reference, own, changed⟩ := exists_left rewritten rfl
      cases changed with
      | left leftOther =>
        exact renewed.isSome_iff.mpr ⟨leftOther,
          renewed.closed name desc found other (.named rootName own)⟩
      | redirect _ ends => exact redirected ends
    · intro root' other isRoot computed
      rw [isRoot] at rewritten
      obtain ⟨reference, own, changed⟩ := exists_left rewritten rfl
      cases changed with
      | @root root _ _ _ repo =>
        rw [computed, Option.map_id] at repo
        have isRepo := renewed.closed name desc found other (.computed rootName root own repo.symm)
        exact renewed.isSome_iff.mpr ⟨harmless.inPlace name desc found left rootName root other
          notFirst own repo.symm, isRepo⟩
  have others := fun rootName notFirst => holds.later harmless left found rootName notFirst
  cases mentions with
  | binding link bound =>
    rw [holds.bindings] at bound
    obtain ⟨old, leads, rfl⟩ := map_eq_some_iff.mp bound
    exact renewed.isSome_renamed (renewed.closed name desc found old (.binding link leads))
  | named rootName isNamed =>
    by_cases first : rootName = .repository
    · subst first
      have rewritten := holds.repository
      have isFirst : desc'.repository = .named other := some.inj isNamed
      rw [isFirst] at rewritten
      generalize own : desc.repository = reference at rewritten
      cases rewritten with
      | left leftOther =>
        exact renewed.isSome_iff.mpr ⟨leftOther,
          renewed.closed name desc found other (.named .repository (congrArg some own))⟩
      | redirect _ ends => exact redirected ends
    · exact (later rootName first (others rootName first)).1 other isNamed
  | computed rootName root' isRoot computed =>
    by_cases first : rootName = .repository
    · subst first
      have rewritten := holds.repository
      have isFirst : desc'.repository = .root root' := some.inj isRoot
      rw [isFirst] at rewritten
      generalize own : desc.repository = reference at rewritten
      cases rewritten with
      | @root root _ _ _ repo =>
        rw [computed] at repo
        obtain ⟨old, leads, rfl⟩ := map_eq_some_iff.mp repo.symm
        exact renewed.isSome_renamed (renewed.closed name desc found old
          (.computed .repository root (congrArg some own) leads))
    · exact (later rootName first (others rootName first)).2 root' other isRoot computed

end

/-! ## Nothing else preserves meaning -/

omit [DecidableEq Value] in
theorem equivalent_of_same {name : Str}
    (same : Bisimilar (meaning Value depth) (repos, name) (new, name)) {link : Link} {old : Str}
    (before : follow repos depth name link = some old)
    (after : follow new depth name link = some other)
    (again : Bisimilar (meaning Value depth) (repos, other) (new, other)) :
    Equivalent repos depth old other := by
  have oldNext : (meaning Value depth).next (repos, name) link = some (repos, old) := by
    simp only [meaning, before, map_some]
  have newNext : (meaning Value depth).next (new, name) link = some (new, other) := by
    simp only [meaning, after, map_some]
  exact (same.next oldNext newNext).trans again.symm

theorem Renewed.harmless (renewed : Renewed repos keep depth merging new)
    (closed : ∀ name desc, find name new = some desc → ∀ other, Mentions desc other →
      (find other new).isSome) (same : ∀ name, (find name new).isSome →
      Bisimilar (meaning Value depth) (repos, name) (new, name)) : Harmless repos keep depth := by
  have positive : ∀ name, (find name repos).isSome → ∃ fuel, depth = fuel + 1 := by
    intro name isRepo
    cases depth with
    | succ fuel => exact ⟨fuel, rfl⟩
    | zero =>
      have impossible := renewed.regular.resolves name isRepo .repository
      cases impossible
  have isSome_of : ∀ {name desc}, find name repos = some desc → (find name repos).isSome := by
    intro name desc found
    rw [found]
    rfl
  constructor
  · intro name desc found left other isNamed
    obtain ⟨desc', isNew, holds⟩ := renewed.description left found
    have there := closed name desc' isNew other (.named .expressionRoot
      (holds.expressionRoot.trans isNamed))
    exact (renewed.isSome_iff.mp there).1
  · intro name desc found left rootName root other notFirst own computed
    obtain ⟨desc', isNew, holds⟩ := renewed.description left found
    have kept : ∃ root', desc'.reference rootName = some (.root root') ∧
        computedRepo root' = some other := by
      have rewritten : Rel (Rewritten repos keep depth merging.renames id)
          (desc.reference rootName) (desc'.reference rootName) ∨
          desc'.reference rootName = desc.reference rootName := by
        cases rootName with
        | repository => exact absurd rfl notFirst
        | targetRoot => exact .inl holds.targetRoot
        | ruleRoot => exact .inl holds.ruleRoot
        | expressionRoot => exact .inr holds.expressionRoot
      cases rewritten with
      | inr same => exact ⟨root, same.trans own, computed⟩
      | inl changes =>
        rw [own] at changes
        obtain ⟨reference', own', changed⟩ := exists_right changes rfl
        cases changed with
        | @root _ root' _ _ repo =>
          rw [computed] at repo
          exact ⟨root', own', repo⟩
    obtain ⟨root', own', computed'⟩ := kept
    exact (renewed.isSome_iff.mp (closed name desc' isNew other
      (.computed rootName root' own' computed'))).1
  · intro name desc found left link other rep leads merged
    obtain ⟨desc', isNew, holds⟩ := renewed.description left found
    have before : follow repos depth name (.binding link) = some other := by
      rw [follow, found, bind_some, leads]
    have after : follow new depth name (.binding link) = some rep := by
      rw [follow, isNew, bind_some, holds.bindings, leads, map_some,
        renewed.renames.renamed_merged merged]
    have isRep := renewed.isSome_iff.mpr ⟨merged.represents.left, merged.represents.isRepo⟩
    exact sameSpecials_of_related (.some (equivalent_of_same
      (same name (renewed.isSome_iff.mpr ⟨left, isSome_of found⟩)) before after (same rep isRep)))
  · intro name desc found left root other rep own computed merged
    obtain ⟨desc', isNew, holds⟩ := renewed.description left found
    obtain ⟨fuel, fuelIs⟩ := positive name (isSome_of found)
    have rewritten := holds.repository
    rw [own] at rewritten
    generalize own' : desc'.repository = reference at rewritten
    cases rewritten with
    | @root _ root' _ _ repo =>
      rw [computed, map_some, renewed.renames.renamed_merged merged] at repo
      have isRoot : resolved repos depth name .repository = some root := by
        rw [fuelIs]
        exact resolved_inPlace found own
      have isRoot' : resolved new depth name .repository = some root' := by
        rw [fuelIs]
        exact resolved_inPlace isNew own'
      have before : follow repos depth name (.computed .repository) = some other := by
        rw [follow, isRoot, bind_some, computed]
      have after : follow new depth name (.computed .repository) = some rep := by
        rw [follow, isRoot', bind_some, repo]
      have isRep := renewed.isSome_iff.mpr ⟨merged.represents.left, merged.represents.isRepo⟩
      exact sameSpecials_of_related (.some (equivalent_of_same
        (same name (renewed.isSome_iff.mpr ⟨left, isSome_of found⟩)) before after
        (same rep isRep)))
  · intro name desc found left rootName other notExpression isNamed notLeft final rep ends merged
    obtain ⟨desc', isNew, holds⟩ := renewed.description left found
    obtain ⟨fuel, fuelIs⟩ := positive name (isSome_of found)
    -- the root is redirected to the representative
    have rewritten : ∃ rename, Rel (Rewritten repos keep depth merging.renames rename)
        (desc.reference rootName) (desc'.reference rootName) := by
      cases rootName with
      | repository => exact ⟨_, .some holds.repository⟩
      | targetRoot => exact ⟨_, holds.targetRoot⟩
      | ruleRoot => exact ⟨_, holds.ruleRoot⟩
      | expressionRoot => exact absurd rfl notExpression
    obtain ⟨rename, changes⟩ := rewritten
    rw [isNamed] at changes
    obtain ⟨reference', own', changed⟩ := exists_right changes rfl
    have isRedirect : reference' = .named rep := by
      cases changed with
      | left leftOther => exact absurd leftOther notLeft
      | @redirect _ final' _ ends' =>
        obtain rfl : final = final' := some.inj (ends.symm.trans ends')
        rw [renewed.renames.renamed_merged merged]
    subst isRedirect
    -- the roots of the repository, before and after
    obtain ⟨root, isRoot⟩ :=
      isSome_iff_exists.mp (renewed.regular.resolves name (isSome_of found) rootName)
    have isRootOther : getRoot repos fuel other .repository none = some root := by
      rw [fuelIs] at isRoot
      cases rootName <;>
        simp only [resolved, getRoot, found, isNamed] at isRoot <;> exact isRoot
    obtain ⟨same', finalDesc, ends', foundFinal, own⟩ := final_of_getRoot isRootOther
    obtain rfl : final = same' := some.inj (ends.symm.trans (final_mono (by omega) ends'))
    obtain ⟨less, fuelIs'⟩ : ∃ less, fuel = less + 1 := by
      cases fuel with
      | zero => cases isRootOther
      | succ less => exact ⟨less, rfl⟩
    have hasOne : hasRoot repos rep = true := by
      refine merged.represents.rooted final merged.isRepo (Bisimilar.refl _) ?_
      unfold hasRoot
      rw [foundFinal]
      simp only [own]
    obtain ⟨repDesc, foundRep⟩ := isSome_iff_exists.mp merged.represents.isRepo
    obtain ⟨repDesc', isNewRep, holdsRep⟩ := renewed.description merged.represents.left foundRep
    have inRep : ∃ repRoot repRoot', repDesc.repository = .root repRoot ∧
        repDesc'.repository = .root repRoot' := by
      have rewritten := holdsRep.repository
      unfold hasRoot at hasOne
      rw [foundRep] at hasOne
      cases isRef : repDesc.repository with
      | named _ =>
        simp only [isRef] at hasOne
        cases hasOne
      | root repRoot =>
        rw [isRef] at rewritten
        generalize isRef' : repDesc'.repository = reference at rewritten
        cases rewritten with
        | @root _ repRoot' _ _ _ => exact ⟨repRoot, repRoot', rfl, rfl⟩
    obtain ⟨repRoot, repRoot', ownRep, ownRep'⟩ := inRep
    have rootFinal : resolved repos depth final .repository = some root := by
      rw [fuelIs]
      exact resolved_inPlace foundFinal own
    have rootRep : resolved repos depth rep .repository = some repRoot := by
      rw [fuelIs]
      exact resolved_inPlace foundRep ownRep
    have rootRep' : resolved new depth rep .repository = some repRoot' := by
      rw [fuelIs]
      exact resolved_inPlace isNewRep ownRep'
    have isRoot' : resolved new depth name rootName = some repRoot' := by
      have there : getRoot new fuel rep .repository none = some repRoot' := by
        rw [fuelIs']
        exact resolved_inPlace isNewRep ownRep'
      rw [fuelIs]
      cases rootName <;> simp only [resolved, getRoot, isNew, own'] <;> exact there
    have isRep := renewed.isSome_iff.mpr ⟨merged.represents.left, merged.represents.isRepo⟩
    have sameName := same name (renewed.isSome_iff.mpr ⟨left, isSome_of found⟩)
    have sameRep := same rep isRep
    have labelName := congrFun (congrArg snd sameName.label) rootName
    have labelRep := congrFun (congrArg snd sameRep.label) .repository
    simp only [meaning, isRoot, isRoot', rootRep, rootRep', map_some, some.injEq,
      Prod.mk.injEq] at labelName labelRep
    constructor
    · simp only [specials, rootFinal, rootRep, map_some, labelName.2, labelRep.2]
    · refine sameSpecials_of_related ?_
      have nextName := (bisimilar_isBisimulation _ _ _ sameName).2 (.computed rootName)
      have nextRep := (bisimilar_isBisimulation _ _ _ sameRep).2 (.computed .repository)
      simp only [meaning, follow, isRoot, isRoot', rootRep, rootRep', bind_some]
        at nextName nextRep
      simp only [follow, rootFinal, rootRep, bind_some]
      generalize computedRepo root = first at nextName
      generalize computedRepo repRoot = second at nextRep
      generalize computedRepo repRoot' = third at nextName nextRep
      cases third with
      | none =>
        cases first with
        | some _ => cases nextName
        | none =>
          cases second with
          | some _ => cases nextRep
          | none => exact .none
      | some _ =>
        cases first with
        | none => cases nextName
        | some _ =>
          cases second with
          | none => cases nextRep
          | some _ =>
            cases nextName with
            | some alike =>
              cases nextRep with
              | some alike' => exact .some (alike.trans alike'.symm)

end Same

/-- Deduplication preserves meaning if and only if what it does not rename is left, and references
are only renamed where the special pragmas agree. -/
theorem dedup_preserves_iff [DecidableEq Value] (config : Configuration Value)
    (wellFormed : WellFormed config.repositories) (userKeep : List Str) :
    ∃ enough, ∀ depth, enough ≤ depth → ∃ new, dedup config userKeep depth = some new ∧
      (Preserves config userKeep depth new ↔
        Harmless config.repositories (keepNames config userKeep) depth) := by
  obtain ⟨enough, regularFrom⟩ := wellFormed.regular
  refine ⟨max enough (orderedPairs [] (sortedNames config.repositories)).length,
    fun depth atLeast => ?_⟩
  have regular := regularFrom depth (le_trans (le_max_left _ _) atLeast)
  obtain ⟨classes, ran, areClasses, covered⟩ := bisimilarRepos_spec config.nodup regular
    (le_trans (le_max_right _ _) atLeast)
  obtain ⟨merging, merged, sound, complete, updated⟩ :=
    @mergeClasses_spec Value _ config.repositories (keepNames config userKeep) depth _ classes
      areClasses
  have renames : Renames config.repositories (keepNames config userKeep) depth merging := by
    refine ⟨fun name rep => ⟨fun found => sound name rep (mem_of_find found), fun isMerged => ?_⟩,
      fun name reference found => updated name reference (mem_of_find found)⟩
    obtain ⟨c, isClass, member⟩ := covered name isMerged.isRepo
    refine find_of_unique (complete c isClass name member rep isMerged) fun other inside => ?_
    exact (sound name other inside).represents.unique isMerged.represents
  obtain ⟨new, made, finds⟩ := @newRepositories_spec Value config.repositories depth merging
    config.repositories (by
      intro item member _
      obtain ⟨desc', isNew, _⟩ := newDescription_spec renames regular
        (find_of_unique member fun other inside =>
          congrArg snd (List.inj_on_of_nodup_map config.nodup inside member rfl))
      rw [isNew]
      rfl)
  have renewed : Renewed config.repositories (keepNames config userKeep) depth merging new :=
    ⟨renames, regular, wellFormed.closed, finds⟩
  refine ⟨new, ?_, ?_, ?_⟩
  · unfold dedup
    simp only [ran, merged, bind_eq_bind, bind_some]
    exact made
  · intro preserves
    exact renewed.harmless preserves.closed preserves.same
  · intro harmless
    refine ⟨fun name isKept isRepo => renewed.isSome_iff.mpr
      ⟨fun rep isMerged => isMerged.dropped isKept, isRepo⟩, ?_, ?_⟩
    · exact fun name desc isNew other mentions => renewed.closed_new harmless isNew mentions
    · exact fun name isNew => renewed.same harmless isNew

end Denotation

/-! ## Two configurations -/

/-- The names that a description mentions. -/
def mentioned (desc : Repository Value) : List Str :=
  (bindingsOf desc).map (·.2) ++
    [RootName.repository, .targetRoot, .ruleRoot, .expressionRoot].flatMap fun rootName =>
      match desc.reference rootName with
      | none => []
      | some (.named other) => [other]
      | some (.root root) => (computedRepo root).toList

theorem mem_mentioned {desc : Repository Value} (mentions : Mentions desc other) :
    other ∈ mentioned desc := by
  have all : ∀ rootName, rootName ∈
      [RootName.repository, .targetRoot, .ruleRoot, .expressionRoot] := by
    intro rootName
    cases rootName <;> simp
  cases mentions with
  | binding link bound =>
    exact mem_append_left _ (mem_map.mpr ⟨(link, other), mem_of_find bound, rfl⟩)
  | named rootName isNamed =>
    refine mem_append_right _ (List.mem_flatMap.mpr ⟨rootName, all rootName, ?_⟩)
    rw [isNamed]
    exact mem_singleton.mpr rfl
  | computed rootName root inPlace repo =>
    refine mem_append_right _ (List.mem_flatMap.mpr ⟨rootName, all rootName, ?_⟩)
    rw [inPlace]
    exact Option.mem_toList.mpr repo

theorem wellFormed_of_check {repos : Repositories Value}
    (names : ∀ item ∈ repos, ∀ other ∈ mentioned item.2, (find other repos).isSome)
    (roots : ∀ item ∈ repos, hasRoot [item] item.1 = true) : WellFormed repos where
  closed := fun name _ found _ mentions =>
    names (name, _) (mem_of_find found) _ (mem_mentioned mentions)
  acyclic := by
    refine ⟨fun _ => 0, fun name desc other found isNamed => ?_⟩
    have hasOne := roots (name, desc) (mem_of_find found)
    unfold hasRoot at hasOne
    simp only [find_cons, ↓reduceIte, isNamed] at hasOne
    cases hasOne

/-- A repository with a root in the file system. -/
def fileRepository (path : String) : Repository Str where
  repository := .root ⟨.file (lit path), none⟩
  targetRoot := none
  ruleRoot := none
  expressionRoot := none
  targetFileName := none
  ruleFileName := none
  expressionFileName := none
  bindings := none

/-- Two names for the same root, one of which is bound. -/
def twoNames : Configuration Str where
  repositories :=
    [(lit "main", { fileRepository "." with bindings := some [(lit "dep", lit "b")] }),
      (lit "a", fileRepository "x"), (lit "b", fileRepository "x")]
  nodup := by decide
  main := some (lit "main")

theorem twoNames_iff :
    ∃ enough, ∀ depth, enough ≤ depth → ∃ new, dedup twoNames [] depth = some new ∧
      (Preserves twoNames [] depth new ↔
        Harmless twoNames.repositories (keepNames twoNames []) depth) :=
  dedup_preserves_iff twoNames
    (wellFormed_of_check (by decide) (by decide)) []

/-- Two names for the same root, one of which is an expression root. -/
def expressionName : Configuration Str where
  repositories :=
    [(lit "main", { fileRepository "." with expressionRoot := some (.named (lit "b")) }),
      (lit "a", fileRepository "x"), (lit "b", fileRepository "x")]
  nodup := by decide
  main := some (lit "main")

theorem expressionRoot_dangles : WellFormed expressionName.repositories ∧
    ∃ new, dedup expressionName [] 10 = some new ∧ ¬ Preserves expressionName [] 10 new := by
  refine ⟨wellFormed_of_check (by decide) (by decide),
    [(lit "main", { fileRepository "." with expressionRoot := some (.named (lit "b")) }),
      (lit "a", fileRepository "x")], by decide, ?_⟩
  intro preserves
  have dangling := preserves.closed (lit "main")
    { fileRepository "." with expressionRoot := some (.named (lit "b")) } (by decide)
    (lit "b") (.named .expressionRoot rfl)
  revert dangling
  decide

end Jst.Verif.Deduplication
