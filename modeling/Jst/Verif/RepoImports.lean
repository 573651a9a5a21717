import Jst.Verif.ImportNames
import Jst.Verif.ReposToImport
/-!
# Importing repositories

An import is correct if nothing that exists changes, every imported repository has a name of its
own, and its description is the foreign one with all names translated. The import achieves this
exactly if the repositories of every distdir are imported, every layer whose root is given by name
has that repository imported, and no two names clash.
-/
namespace Jst.Verif.RepoImports

open SortedMap Tools.Import ReposToImport ImportNames
open Option (Rel)

variable {Value : Type} [DecidableEq Value]

variable {total : List (Str × Str)} {remote : Remote Value} {desc spec : Repository Value}
  {reference : RootReference Value} {asLayer : Bool} {imports : List Str}

/-! ## Descriptions -/

/-- The kind of a root is translated. -/
inductive KindRenamed (remote : Remote Value) (total : List (Str × Str)) (root : Root Value) :
    RootKind Value → Prop where
  | file {path : Option Str} {root' : Root Value} (isFile : root.kind = .file path)
    (rewritten : remote.rewriteFileRepo root = some root') :
    KindRenamed remote total root root'.kind
  | distdir {repositories renamed : List Str} (isDistdir : root.kind = .distdir repositories)
    (each : List.Forall₂ (fun name name' => find name total = some name') repositories renamed) :
    KindRenamed remote total root (.distdir renamed)
  | computed {repo renamed : Str} {fields : Value} (isComputed : root.kind = .computed repo fields)
    (found : find repo total = some renamed) :
    KindRenamed remote total root (.computed renamed fields)
  | other {fields : Value} (isOther : root.kind = .other fields) :
    KindRenamed remote total root (.other fields)

/-- `"repository"` is translated, up to the pragma of a root. -/
inductive RootRenamed (remote : Remote Value) (total : List (Str × Str)) :
    RootReference Value → RootReference Value → Prop where
  | named {name renamed : Str} (found : find name total = some renamed) :
    RootRenamed remote total (.named name) (.named renamed)
  | root {root result : Root Value} (kind : KindRenamed remote total root result.kind) :
    RootRenamed remote total (.root root) (.root result)

/-- The layers, file names and bindings are translated. -/
structure RestRenamed (total : List (Str × Str)) (spec desc : Repository Value) : Prop where
  targetRoot : Rel (fun name name' => find name total = some name') spec.targetRoot
    desc.targetRoot
  ruleRoot : Rel (fun name name' => find name total = some name') spec.ruleRoot desc.ruleRoot
  expressionRoot : Rel (fun name name' => find name total = some name') spec.expressionRoot
    desc.expressionRoot
  targetFileName : desc.targetFileName = spec.targetFileName
  ruleFileName : desc.ruleFileName = spec.ruleFileName
  expressionFileName : desc.expressionFileName = spec.expressionFileName
  bindings : List.Forall₂ (fun link link' => link'.1 = link.1 ∧ find link.2 total = some link'.2)
    spec.links desc.links

omit [DecidableEq Value] in
theorem mem_values {name renamed : Str} (found : find name total = some renamed) :
    renamed ∈ total.map (·.2) :=
  mem_map.mpr ⟨(name, renamed), mem_of_find found, rfl⟩

@[simp] theorem updatePragmas_kind (remote : Remote Value) (root : Root Value) :
    (updatePragmas remote root).kind = root.kind := by
  unfold updatePragmas
  exact (apply_ite Root.kind _ _ _).trans (ite_self _)

theorem rewriteRoot_renamed {result : RootReference Value}
    (success : rewriteRoot remote total reference = some result) :
    RootRenamed remote total reference result := by
  cases reference with
  | named name =>
    simp only [rewriteRoot, bind_eq_bind, bind_eq_some_iff, pure_def, some.injEq] at success
    obtain ⟨renamed, found, rfl⟩ := success
    exact .named found
  | root root =>
    cases kind : root.kind with
    | file path =>
      simp only [rewriteRoot, kind, bind_eq_bind, bind_eq_some_iff, pure_def, some.injEq] at success
      obtain ⟨root', rewritten, rfl⟩ := success
      refine .root ?_
      rw [updatePragmas_kind]
      exact .file kind rewritten
    | distdir repositories =>
      simp only [rewriteRoot, kind, bind_eq_bind, bind_eq_some_iff, bind_some,
        pure_def, some.injEq] at success
      obtain ⟨renamed, each, rfl⟩ := success
      refine .root ?_
      rw [updatePragmas_kind]
      exact .distdir kind (Loops.mapM_eq_some.mp each)
    | computed repo fields =>
      simp only [rewriteRoot, kind, bind_eq_bind, bind_eq_some_iff, bind_some,
        pure_def, some.injEq] at success
      obtain ⟨renamed, found, rfl⟩ := success
      refine .root ?_
      rw [updatePragmas_kind]
      exact .computed kind found
    | other fields =>
      simp only [rewriteRoot, kind, bind_eq_bind, bind_some, pure_def, some.injEq] at success
      cases success
      refine .root ?_
      rw [updatePragmas_kind, kind]
      exact .other kind

/-- The root can be rewritten: all its repositories have names, and a file root can be rewritten. -/
structure RootRewritable (remote : Remote Value) (total : List (Str × Str))
    (reference : RootReference Value) : Prop where
  names : ∀ other ∈ rootMentions reference, ∃ renamed, find other total = some renamed
  files : ∀ root path, reference = .root root → root.kind = .file path →
    ∃ root', remote.rewriteFileRepo root = some root'

theorem rewriteRoot_isSome_iff : (∃ result, rewriteRoot remote total reference = some result) ↔
      RootRewritable remote total reference := by
  constructor
  · rintro ⟨result, success⟩
    cases rewriteRoot_renamed success with
    | named found =>
      refine ⟨fun other member => ?_, by simp⟩
      cases mem_singleton.mp member
      exact ⟨_, found⟩
    | @root root result kind =>
      constructor
      · intro other member
        generalize result.kind = resultKind at kind
        cases kind with
        | file isFile _ => simp [rootMentions, kindMentions, isFile] at member
        | distdir isDistdir each =>
          simp only [rootMentions, kindMentions, isDistdir] at member
          obtain ⟨renamed, _, found⟩ := Loops.mem_of_mapM (Loops.mapM_eq_some.mpr each) member
          exact ⟨renamed, found⟩
        | computed isComputed found =>
          simp only [rootMentions, kindMentions, isComputed] at member
          cases mem_singleton.mp member
          exact ⟨_, found⟩
        | other isOther => simp [rootMentions, kindMentions, isOther] at member
      · rintro _ path ⟨⟩ isFile
        generalize result.kind = resultKind at kind
        cases kind with
        | file _ rewritten => exact ⟨_, rewritten⟩
        | distdir isDistdir _ => cases isFile.symm.trans isDistdir
        | computed isComputed _ => cases isFile.symm.trans isComputed
        | other isOther => cases isFile.symm.trans isOther
  · intro rewritable
    cases reference with
    | named name =>
      obtain ⟨renamed, found⟩ := rewritable.names name (mem_singleton.mpr rfl)
      exact ⟨.named renamed, by simp [rewriteRoot, found]⟩
    | root root =>
      cases kind : root.kind with
      | file path =>
        obtain ⟨root', rewritten⟩ := rewritable.files root path rfl kind
        exact ⟨.root (updatePragmas remote root'), by simp [rewriteRoot, kind, rewritten]⟩
      | distdir repositories =>
        cases each : repositories.mapM fun repo => find repo total with
        | none =>
          obtain ⟨repo, member, missing⟩ := Loops.mapM_eq_none.mp each
          obtain ⟨renamed, found⟩ := rewritable.names repo (by
            simp only [rootMentions, kindMentions, kind]
            exact member)
          cases missing.symm.trans found
        | some renamed =>
          exact ⟨_, by simp only [rewriteRoot, kind, each, bind_eq_bind, bind_some, pure_def]; rfl⟩
      | computed repo fields =>
        obtain ⟨renamed, found⟩ := rewritable.names repo (by
          simp only [rootMentions, kindMentions, kind]
          exact mem_singleton.mpr rfl)
        exact ⟨_, by simp only [rewriteRoot, kind, found, bind_eq_bind, bind_some, pure_def]; rfl⟩
      | other fields =>
        exact ⟨_, by simp only [rewriteRoot, kind, bind_eq_bind, bind_some, pure_def]; rfl⟩

section
omit [DecidableEq Value]

theorem RootRenamed.closed {result : RootReference Value}
    (renamed : RootRenamed remote total reference result) :
    ∀ other ∈ rootMentions result, other ∈ total.map (·.2) := by
  intro other member
  cases renamed with
  | named found =>
    cases mem_singleton.mp member
    exact mem_values found
  | @root root result kind =>
    simp only [rootMentions] at member
    generalize result.kind = resultKind at kind member
    cases kind with
    | @file _ root' _ rewritten =>
      obtain ⟨noBase, noDistdir⟩ := remote.no_references root root' rewritten
      cases shape : root'.kind with
      | file path => simp [kindMentions, shape] at member
      | distdir repositories => exact absurd shape (noDistdir repositories)
      | computed repo fields => simp [RootKind.base, shape] at noBase
      | other fields => simp [kindMentions, shape] at member
    | distdir _ each =>
      obtain ⟨name, _, found⟩ := Loops.exists_of_mem_mapM (Loops.mapM_eq_some.mpr each) member
      exact mem_values found
    | computed _ found =>
      cases mem_singleton.mp member
      exact mem_values found
    | other _ => cases member

variable {name result : Option Str}

end

theorem option_renamed : (name.mapM fun name => find name total) = some result ↔
      Rel (fun name name' => find name total = some name') name result := by
  cases name with
  | none => cases result <;> simp
  | some name =>
    cases result with
    | none => simp
    | some renamed => simp [Option.mapM_some]

/-- What a description can be rewritten with, as a layer or as a whole. -/
def Rewritable (remote : Remote Value) (total : List (Str × Str)) (asLayer : Bool)
    (spec : Repository Value) : Prop :=
  RootRewritable remote total spec.repository ∧
    (asLayer = false → ∀ other ∈ mentions spec, ∃ renamed, find other total = some renamed)

/-- What a description is rewritten to. -/
structure Renamed (remote : Remote Value) (total : List (Str × Str)) (asLayer : Bool)
    (spec desc : Repository Value) : Prop where
  root : RootRenamed remote total spec.repository desc.repository
  rest : asLayer = false → RestRenamed total spec desc
  closed : ∀ other ∈ mentions desc, other ∈ total.map (·.2)

section
omit [DecidableEq Value]

theorem rel_closed (renamed : Rel (fun name name' => find name total = some name') name result) :
    ∀ other ∈ result.toList, other ∈ total.map (·.2) := by
  intro other member
  cases renamed with
  | none => cases member
  | some found =>
    cases mem_singleton.mp member
    exact mem_values found

theorem RestRenamed.closed (root : RootRenamed remote total spec.repository desc.repository)
    (rest : RestRenamed total spec desc) : ∀ other ∈ mentions desc, other ∈ total.map (·.2) := by
  intro other member
  rcases mem_append.mp member with member | link
  · rcases mem_append.mp member with inRoot | layer
    · exact root.closed other inRoot
    · rcases mem_append.mp layer with layer | expression
      · rcases mem_append.mp layer with target | rule_
        · exact rel_closed rest.targetRoot other target
        · exact rel_closed rest.ruleRoot other rule_
      · exact rel_closed rest.expressionRoot other expression
  · obtain ⟨link', inside, rfl⟩ := mem_map.mp link
    have images : ∀ link' ∈ desc.links, ∃ link ∈ spec.links, find link.2 total = some link'.2 := by
      have each := rest.bindings
      generalize spec.links = links at each
      generalize desc.links = links' at each
      induction each with
      | nil => simp
      | cons here _ step =>
        intro item member
        cases mem_cons.mp member with
        | inl same => exact ⟨_, mem_cons_self, same ▸ here.2⟩
        | inr later =>
          obtain ⟨link, before, found⟩ := step item later
          exact ⟨link, mem_cons_of_mem _ before, found⟩
    obtain ⟨link, _, found⟩ := images link' inside
    exact mem_values found

end

theorem rewriteRepo_renamed (success : rewriteRepo remote total asLayer spec = some desc) :
    Renamed remote total asLayer spec desc := by
  unfold rewriteRepo at success
  obtain ⟨repository, rewritten, success⟩ := bind_eq_some_iff.mp success
  have root := rewriteRoot_renamed rewritten
  cases asLayer with
  | true =>
    cases success
    refine ⟨root, (fun absurd => nomatch absurd), fun other member => ?_⟩
    refine root.closed other ?_
    simpa [mentions, Repository.layers, Repository.links] using member
  | false =>
    simp only [false_eq_true, if_false, bind_eq_bind, bind_eq_some_iff,
      pure_def, some.injEq] at success
    obtain ⟨target, targetFound, rule_, ruleFound, expression, expressionFound, links, linksFound,
      rfl⟩ := success
    have bindings : (if links.isEmpty = true then none else some links).getD [] = links := by
      cases links <;> rfl
    have rest : RestRenamed total spec ⟨repository, target, rule_, expression, spec.targetFileName,
        spec.ruleFileName, spec.expressionFileName,
        if links.isEmpty = true then none else some links⟩ := by
      refine ⟨option_renamed.mp targetFound, option_renamed.mp ruleFound,
        option_renamed.mp expressionFound, rfl, rfl, rfl, ?_⟩
      change List.Forall₂ _ spec.links ((if links.isEmpty = true then none else some links).getD [])
      rw [bindings]
      refine (Loops.mapM_eq_some.mp linksFound).imp fun link link' called => ?_
      simp only [rewriteLink, bind_eq_bind, bind_eq_some_iff, pure_def, some.injEq] at called
      obtain ⟨renamed, found, rfl⟩ := called
      exact ⟨rfl, found⟩
    exact ⟨root, fun _ => rest, rest.closed root⟩

theorem rewriteRepo_isSome_iff : (∃ desc, rewriteRepo remote total asLayer spec = some desc) ↔
      Rewritable remote total asLayer spec := by
  constructor
  · rintro ⟨desc, success⟩
    have renamed := rewriteRepo_renamed success
    unfold rewriteRepo at success
    obtain ⟨repository, rewritten, _⟩ := bind_eq_some_iff.mp success
    have root := rewriteRoot_isSome_iff.mp ⟨repository, rewritten⟩
    refine ⟨root, fun full other member => ?_⟩
    have rest := renamed.rest full
    have layer : ∀ {name result : Option Str},
        Rel (fun name name' => find name total = some name') name result →
        other ∈ name.toList → ∃ renamed, find other total = some renamed := by
      intro name result related member
      cases related with
      | none => cases member
      | some found =>
        cases mem_singleton.mp member
        exact ⟨_, found⟩
    rcases mem_append.mp member with member | link
    · rcases mem_append.mp member with inRoot | inLayers
      · exact root.names other inRoot
      · rcases mem_append.mp inLayers with inLayers | expression
        · rcases mem_append.mp inLayers with target | rule_
          · exact layer rest.targetRoot target
          · exact layer rest.ruleRoot rule_
        · exact layer rest.expressionRoot expression
    · obtain ⟨item, inside, rfl⟩ := mem_map.mp link
      have each := rest.bindings
      generalize spec.links = links at each inside
      generalize desc.links = links' at each
      induction each with
      | nil => cases inside
      | cons here _ step =>
        cases mem_cons.mp inside with
        | inl same => exact ⟨_, same ▸ here.2⟩
        | inr later => exact step later
  · rintro ⟨root, rest⟩
    obtain ⟨repository, rewritten⟩ := rewriteRoot_isSome_iff.mpr root
    cases asLayer with
    | true => exact ⟨_, by
        simp only [rewriteRepo, rewritten, bind_eq_bind, bind_some, if_true]
        rfl⟩
    | false =>
      have layer : ∀ name : Option Str, (∀ other ∈ name.toList, other ∈ spec.layers) →
          ∃ result, (name.mapM fun name => find name total) = some result := by
        intro name inside
        cases name with
        | none => exact ⟨none, rfl⟩
        | some name =>
          obtain ⟨renamed, found⟩ := rest rfl name (mem_append_left _
            (mem_append_right _ (inside name (mem_singleton.mpr rfl))))
          exact ⟨some renamed, by simp [Option.mapM_some, found]⟩
      obtain ⟨target, targetFound⟩ := layer spec.targetRoot fun other member =>
        mem_append_left _ (mem_append_left _ member)
      obtain ⟨rule_, ruleFound⟩ := layer spec.ruleRoot fun other member =>
        mem_append_left _ (mem_append_right _ member)
      obtain ⟨expression, expressionFound⟩ := layer spec.expressionRoot fun other member =>
        mem_append_right _ member
      obtain ⟨links, linksFound⟩ := @Loops.exists_mapM _ _ spec.links (rewriteLink total)
        fun item member => by
          obtain ⟨renamed, found⟩ := rest rfl item.2
            (mem_append_right _ (mem_map_of_mem member))
          exact ⟨(item.1, renamed), by simp [rewriteLink, found]⟩
      exact ⟨_, by simp only [rewriteRepo, rewritten, targetFound, ruleFound, expressionFound,
        linksFound, bind_eq_bind, bind_some, false_eq_true, if_false, pure_def]; rfl⟩

/-! ## The loops -/

omit [DecidableEq Value] in
@[simp] theorem find_setItem (query name : Str) (desc : Repository Value)
    (repos : Repositories Value) :
    find query (setItem name desc repos) = if name = query then some desc else find query repos := by
  induction repos with
  | nil => by_cases hit : name = query <;> simp [setItem, find_cons, hit]
  | cons first rest step =>
    obtain ⟨other, old⟩ := first
    simp only [setItem]
    by_cases same : other = name
    · rw [if_pos same, find_cons, find_cons, same]
      split <;> rfl
    · rw [if_neg same, find_cons, step, find_cons]
      by_cases hit : other = query
      · have differ : name ≠ query := fun equal => same (hit.trans equal.symm)
        rw [if_pos hit, if_pos hit, if_neg differ]
      · rw [if_neg hit, if_neg hit]

variable {assign : List (Str × Str)}

theorem addImports_spec {repos start result : Repositories Value}
    {list : List Str} (once : list.Nodup)
    (injective : ∀ left right name, find left assign = some name →
      find right assign = some name → left = right)
    (success : addImports remote repos assign total asLayer list start = some result) :
    (∀ repo ∈ list, ∃ spec name desc, find repo repos = some spec ∧ find repo assign = some name ∧
      rewriteRepo remote total asLayer spec = some desc ∧ find name result = some desc) ∧
    ∀ query, (∀ repo ∈ list, find repo assign ≠ some query) →
      find query result = find query start := by
  induction list generalizing start with
  | nil =>
    cases success
    exact ⟨by simp, fun _ _ => rfl⟩
  | cons repo rest step =>
    simp only [addImports, bind_eq_bind, bind_eq_some_iff] at success
    obtain ⟨spec, described, name, assigned, desc, rewritten, remaining⟩ := success
    obtain ⟨absent, onceRest⟩ := nodup_cons.mp once
    obtain ⟨each, others⟩ := step onceRest remaining
    constructor
    · intro other member
      cases mem_cons.mp member with
      | inl same =>
        subst same
        refine ⟨spec, name, desc, described, assigned, rewritten, ?_⟩
        rw [others name fun later inRest found =>
          absent (injective _ _ _ found assigned ▸ inRest), find_setItem, if_pos rfl]
      | inr later => exact each other later
    · intro query foreign
      rw [others query (forall_mem_cons.mp foreign).2,
        find_setItem, if_neg fun same : name = query =>
          foreign repo mem_cons_self (same ▸ assigned)]

theorem addImports_isSome_iff {repos : Repositories Value}
    {list : List Str} (start : Repositories Value) :
    (∃ result, addImports remote repos assign total asLayer list start = some result) ↔
      ∀ repo ∈ list, ∃ spec name, find repo repos = some spec ∧ find repo assign = some name ∧
        Rewritable remote total asLayer spec := by
  induction list generalizing start with
  | nil => exact ⟨fun _ => by simp, fun _ => ⟨start, rfl⟩⟩
  | cons repo rest step =>
    constructor
    · rintro ⟨result, success⟩
      simp only [addImports, bind_eq_bind, bind_eq_some_iff] at success
      obtain ⟨spec, described, name, assigned, desc, rewritten, remaining⟩ := success
      intro other member
      cases mem_cons.mp member with
      | inl same =>
        subst same
        exact ⟨spec, name, described, assigned, rewriteRepo_isSome_iff.mp ⟨desc, rewritten⟩⟩
      | inr later => exact (step _).mp ⟨result, remaining⟩ other later
    · intro each
      obtain ⟨spec, name, described, assigned, rewritable⟩ := each repo mem_cons_self
      obtain ⟨desc, rewritten⟩ := rewriteRepo_isSome_iff.mpr rewritable
      obtain ⟨result, remaining⟩ := (step (setItem name desc start)).mpr fun other member =>
        each other (mem_cons_of_mem _ member)
      exact ⟨result, by simp only [addImports, described, assigned, rewritten, bind_eq_bind,
        bind_some, remaining]⟩

/-! ## The import -/

section

variable {repos : Repositories Value} {entry : Str} {known : List Str}

/-- A repository is imported, fully or as a layer. -/
def IsImported (repos : Repositories Value) (entry : Str) (known : List Str) (name : Str) : Prop :=
  name = entry ∨ ∃ use, Needed repos entry known use name

/-- The order in which repositories are imported: the entry first, then what is needed in full, then
the other ones, each by their names. -/
def Precedes (repos : Repositories Value) (entry : Str) (known : List Str) (left right : Str) :
    Prop :=
  right ≠ entry ∧ (left = entry ∨
    (Needed repos entry known .full left ∧ ¬Needed repos entry known .full right) ∨
    ((Needed repos entry known .full left ↔ Needed repos entry known .full right) ∧ left < right))

/-- A name that is taken when a repository is named: an existing one, or the foreign name of a
repository named before. -/
def IsTaken (repos : Repositories Value) (entry : Str) (known existing : List Str)
    (name other : Str) : Prop :=
  other ∈ existing ∨ IsImported repos entry known other ∧ Precedes repos entry known other name

omit [DecidableEq Value] in
theorem not_needed (mapped : entry ∈ known) {use : Use} {name : Str} :
    ¬Needed repos entry known use name := by
  intro need
  induction need with
  | entry unknown => exact unknown mapped
  | link _ _ _ _ step => exact step
  | reference _ _ _ _ _ step => exact step
  | base _ _ _ _ _ _ step => exact step
  | layer _ _ _ _ _ step => exact step
  | layerBase _ _ _ _ _ _ _ step => exact step

/-- The imports in their order. -/
structure Ordered (repos : Repositories Value) (entry : Str) (known : List Str)
    (imports extra : List Str) : Prop where
  memImports : ∀ name, name ∈ imports ↔ name = entry ∨ Needed repos entry known .full name
  memExtra : ∀ name, name ∈ extra ↔
    (Needed repos entry known .visited name ∨ Needed repos entry known .layer name) ∧
      ¬Needed repos entry known .full name
  nodup : (imports ++ extra).Nodup
  sorted : (imports ++ extra).Pairwise (Precedes repos entry known)

section
omit [DecidableEq Value]

theorem entry_not_extra {use : Use} (need : Needed repos entry known use entry) :
    Needed repos entry known .full entry := .entry need.unknown

theorem Ordered.mem {extra : List Str} (ordered : Ordered repos entry known imports extra)
    (name : Str) : name ∈ imports ++ extra ↔ IsImported repos entry known name := by
  rw [mem_append, ordered.memImports, ordered.memExtra]
  constructor
  · rintro ((same | full) | ⟨visited | layer, _⟩)
    · exact .inl same
    · exact .inr ⟨_, full⟩
    · exact .inr ⟨_, visited⟩
    · exact .inr ⟨_, layer⟩
  · rintro (same | ⟨use, need⟩)
    · exact .inl (.inl same)
    · by_cases full : Needed repos entry known .full name
      · exact .inl (.inr full)
      · cases use with
        | full => exact absurd need full
        | visited => exact .inr ⟨.inl need, full⟩
        | layer => exact .inr ⟨.inr need, full⟩

theorem insertionSort_lt {list : List Str} (once : list.Nodup) :
    (list.insertionSort (· ≤ ·)).Pairwise (· < ·) := by
  have sorted := List.pairwise_insertionSort (· ≤ ·) list
  have distinct : (list.insertionSort (· ≤ ·)).Nodup :=
    (List.perm_insertionSort (· ≤ ·) list).nodup_iff.mpr once
  exact (sorted.and distinct).imp fun both => lt_of_le_of_ne both.1 both.2

theorem Collected.ordered {reached : Reached} (collected : Collected repos entry known reached) :
    Ordered repos entry known (entry :: (reached.toImport.filter (· ≠ entry)).insertionSort (· ≤ ·))
      (reached.extraImports.insertionSort (· ≤ ·)) := by
  have others : ∀ name, name ∈ (reached.toImport.filter (· ≠ entry)).insertionSort (· ≤ ·) ↔
      Needed repos entry known .full name ∧ name ≠ entry := by
    intro name
    rw [List.mem_insertionSort, mem_filter, collected.imports, decide_eq_true_iff]
  have extras : ∀ name, name ∈ reached.extraImports.insertionSort (· ≤ ·) ↔
      (Needed repos entry known .visited name ∨ Needed repos entry known .layer name) ∧
        ¬Needed repos entry known .full name := by
    intro name
    rw [List.mem_insertionSort, collected.extras]
  have notEntry : ∀ name, name ∈ reached.extraImports.insertionSort (· ≤ ·) → name ≠ entry := by
    intro name member same
    subst same
    obtain ⟨need | need, notFull⟩ := (extras name).mp member
    · exact notFull (entry_not_extra need)
    · exact notFull (entry_not_extra need)
  have sorted : (entry :: (reached.toImport.filter (· ≠ entry)).insertionSort (· ≤ ·) ++
      reached.extraImports.insertionSort (· ≤ ·)).Pairwise (Precedes repos entry known) := by
    rw [cons_append, pairwise_cons, List.pairwise_append]
    refine ⟨?_, ?_, ?_, ?_⟩
    · intro name member
      rcases mem_append.mp member with full | extra
      · exact ⟨((others name).mp full).2, .inl rfl⟩
      · exact ⟨notEntry name extra, .inl rfl⟩
    · refine List.Pairwise.imp_of_mem (fun leftMember rightMember less => ?_)
        (insertionSort_lt (collected.imports_nodup.filter _))
      have left := (others _).mp leftMember
      have right := (others _).mp rightMember
      exact ⟨right.2, .inr (.inr ⟨iff_of_true left.1 right.1, less⟩)⟩
    · refine List.Pairwise.imp_of_mem (fun leftMember rightMember less => ?_)
        (insertionSort_lt collected.extras_nodup)
      have left := (extras _).mp leftMember
      have right := (extras _).mp rightMember
      exact ⟨notEntry _ rightMember, .inr (.inr ⟨iff_of_false left.2 right.2, less⟩)⟩
    · intro left leftMember right rightMember
      exact ⟨notEntry right rightMember,
        .inr (.inl ⟨((others left).mp leftMember).1, ((extras right).mp rightMember).2⟩)⟩
  refine ⟨?_, extras, ?_, sorted⟩
  · intro name
    rw [mem_cons, others]
    by_cases same : name = entry <;> simp [same]
  · rw [cons_append]
    refine nodup_cons.mpr ⟨?_, nodup_append.mpr ⟨?_, ?_, ?_⟩⟩
    · intro member
      rcases mem_append.mp member with full | extra
      · exact ((others entry).mp full).2 rfl
      · exact notEntry entry extra rfl
    · exact (List.perm_insertionSort _ _).nodup_iff.mpr (collected.imports_nodup.filter _)
    · exact (List.perm_insertionSort _ _).nodup_iff.mpr collected.extras_nodup
    · intro left leftMember right rightMember same
      subst same
      exact ((extras left).mp rightMember).2 ((others left).mp leftMember).1

theorem Precedes.asymm {left right : Str} (first : Precedes repos entry known left right)
    (second : Precedes repos entry known right left) : False := by
  rcases first with ⟨rightOther, same | ⟨leftFull, rightNot⟩ | ⟨alike, less⟩⟩
  · exact second.1 same
  · rcases second with ⟨_, same | ⟨rightFull, _⟩ | ⟨alike, _⟩⟩
    · exact rightOther same
    · exact rightNot rightFull
    · exact rightNot (alike.mpr leftFull)
  · rcases second with ⟨_, same | ⟨rightFull, leftNot⟩ | ⟨_, more⟩⟩
    · exact rightOther same
    · exact leftNot (alike.mpr rightFull)
    · exact lt_asymm less more

theorem Ordered.before {extra : List Str} (ordered : Ordered repos entry known imports extra)
    (existing : List Str) (name : Str) (front back : List Str)
    (split : imports ++ extra = front ++ name :: back) (other : Str) :
    IsTaken repos entry known existing name other ↔ Taken existing front other := by
  have sorted := ordered.sorted
  rw [split, List.pairwise_append, pairwise_cons] at sorted
  obtain ⟨_, ⟨later, _⟩, across⟩ := sorted
  unfold IsTaken Taken
  refine or_congr_right ⟨?_, fun member => ?_⟩
  · rintro ⟨isImported, precedes⟩
    rw [← ordered.mem, split] at isImported
    rcases mem_append.mp isImported with before | after
    · exact before
    · cases mem_cons.mp after with
      | inl same => exact (precedes.asymm (same ▸ same ▸ precedes)).elim
      | inr behind => exact (precedes.asymm (later other behind)).elim
  · refine ⟨(ordered.mem other).mp ?_, across other member name mem_cons_self⟩
    rw [split]
    exact mem_append_left _ member

end

end

/-- When the references of all imported repositories are imported: the repositories of a distdir are
not visited, nor is the root of a layer if it is given by name, nor anything for an entry that is
mapped. -/
structure ReferencesImported (remote : Remote Value) (repos : Repositories Value) (entry : Str)
    (known : List Str) : Prop where
  distdirs : ∀ name desc root repositories, IsImported repos entry known name →
    find name repos = some desc → desc.repository = .root root →
    root.kind = .distdir repositories →
    ∀ other ∈ repositories, other ∈ known ∨ IsImported repos entry known other
  layers : ∀ name desc other, Needed repos entry known .layer name →
    ¬Needed repos entry known .full name → ¬Needed repos entry known .visited name →
    find name repos = some desc → desc.repository = .named other →
    other ∈ known ∨ IsImported repos entry known other
  mapped : entry ∈ known → ∀ desc, find entry repos = some desc →
    ∀ other ∈ mentions desc, other ∈ known ∨ other = entry
  files : ∀ name desc root path, IsImported repos entry known name →
    find name repos = some desc → desc.repository = .root root → root.kind = .file path →
    ∃ root', remote.rewriteFileRepo root = some root'

section

variable {remote : Remote Value} {repos : Repositories Value} {entry : Str} {known : List Str}
  {total : List (Str × Str)}

section
omit [DecidableEq Value]

theorem ReferencesImported.root (imported : ReferencesImported remote repos entry known) {use : Use}
    {name : Str} (proper : use ≠ .layer) (need : Needed repos entry known use name)
    (described : find name repos = some desc) :
    ∀ other ∈ rootMentions desc.repository, other ∈ known ∨ IsImported repos entry known other := by
  intro other member
  by_cases unknown : other ∈ known
  · exact .inl unknown
  · cases reference : desc.repository with
    | named target =>
      rw [reference] at member
      cases mem_singleton.mp member
      exact .inr (.inr ⟨_, .reference proper need described reference unknown⟩)
    | root root =>
      rw [reference] at member
      simp only [rootMentions] at member
      cases kind : root.kind with
      | distdir repositories =>
        rw [kind] at member
        exact imported.distdirs name desc root repositories (.inr ⟨_, need⟩) described reference kind
          other member
      | computed repo fields =>
        rw [kind] at member
        cases mem_singleton.mp member
        exact .inr (.inr ⟨_, .base proper need described reference (by rw [kind]; rfl) unknown⟩)
      | file path => simp [kindMentions, kind] at member
      | other fields => simp [kindMentions, kind] at member

theorem ReferencesImported.layer (imported : ReferencesImported remote repos entry known)
    {name : Str} (need : Needed repos entry known .layer name)
    (notFull : ¬Needed repos entry known .full name)
    (notVisited : ¬Needed repos entry known .visited name) (described : find name repos = some desc) :
    ∀ other ∈ rootMentions desc.repository, other ∈ known ∨ IsImported repos entry known other := by
  intro other member
  by_cases unknown : other ∈ known
  · exact .inl unknown
  · cases reference : desc.repository with
    | named target =>
      rw [reference] at member
      cases mem_singleton.mp member
      exact imported.layers name desc other need notFull notVisited described reference
    | root root =>
      rw [reference] at member
      simp only [rootMentions] at member
      cases kind : root.kind with
      | distdir repositories =>
        rw [kind] at member
        exact imported.distdirs name desc root repositories (.inr ⟨_, need⟩) described reference kind
          other member
      | computed repo fields =>
        rw [kind] at member
        cases mem_singleton.mp member
        cases need with
        | layer proper source sourceDescribed inLayers _ =>
          have chain : ChainBase repos desc.repository (some other) := by
            have base : root.kind.base = some other := by rw [kind]; rfl
            rw [reference, ← base]
            exact .root root
          exact .inr (.inr ⟨_, .layerBase proper source sourceDescribed inLayers described chain
            unknown⟩)
      | file path => simp [kindMentions, kind] at member
      | other fields => simp [kindMentions, kind] at member

theorem rewritable_iff (has : ∀ other, (∃ renamed, find other total = some renamed) ↔
      other ∈ known ∨ IsImported repos entry known other) :
    ((∀ name spec, name = entry ∨ Needed repos entry known .full name →
        find name repos = some spec → Rewritable remote total false spec) ∧
      ∀ name spec, (Needed repos entry known .visited name ∨ Needed repos entry known .layer name) ∧
        ¬Needed repos entry known .full name → find name repos = some spec →
        Rewritable remote total true spec) ↔ ReferencesImported remote repos entry known := by
  constructor
  · rintro ⟨full, layer⟩
    have root : ∀ name spec, IsImported repos entry known name → find name repos = some spec →
        RootRewritable remote total spec.repository := by
      intro name spec isImported described
      rcases isImported with same | ⟨use, need⟩
      · exact (full name spec (.inl same) described).1
      · by_cases isFull : Needed repos entry known .full name
        · exact (full name spec (.inr isFull) described).1
        · cases use with
          | full => exact absurd need isFull
          | visited => exact (layer name spec ⟨.inl need, isFull⟩ described).1
          | layer => exact (layer name spec ⟨.inr need, isFull⟩ described).1
    constructor
    · intro name desc root_ repositories isImported described inPlace kind other member
      refine (has other).mp ((root name desc isImported described).names other ?_)
      simp only [rootMentions, kindMentions, inPlace, kind]
      exact member
    · intro name desc other need _ _ described named
      refine (has other).mp ((root name desc (.inr ⟨_, need⟩) described).names other ?_)
      rw [named]
      exact mem_singleton.mpr rfl
    · intro mapped desc described other member
      have found := (full entry desc (.inl rfl) described).2 rfl other member
      refine ((has other).mp found).imp_right fun isImported => ?_
      refine isImported.resolve_right ?_
      rintro ⟨_, need⟩
      exact not_needed mapped need
    · intro name desc root_ path isImported described inPlace kind
      exact (root name desc isImported described).files root_ path inPlace kind
  · intro imported
    have files : ∀ name spec, IsImported repos entry known name → find name repos = some spec →
        ∀ root path, spec.repository = .root root → root.kind = .file path →
          ∃ root', remote.rewriteFileRepo root = some root' :=
      fun name spec isImported described root path => imported.files name spec root path isImported
        described
    constructor
    · intro name spec isFull described
      have isImported : IsImported repos entry known name := isFull.imp_right fun need => ⟨_, need⟩
      have all : ∀ other ∈ mentions spec, ∃ renamed, find other total = some renamed := by
        intro other member
        rw [has]
        by_cases mapped : entry ∈ known
        · have same : name = entry := isFull.resolve_right (not_needed mapped)
          subst same
          exact (imported.mapped mapped spec described other member).imp_right .inl
        · have need : Needed repos entry known .full name := by
            cases isFull with
            | inl same =>
              rw [same]
              exact .entry mapped
            | inr need => exact need
          by_cases unknown : other ∈ known
          · exact .inl unknown
          · rcases mem_append.mp member with member | link
            · rcases mem_append.mp member with inRoot | inLayers
              · exact imported.root (by decide) need described other inRoot
              · exact .inr (.inr ⟨_, .layer (by decide) need described inLayers unknown⟩)
            · exact .inr (.inr ⟨_, .link need described link unknown⟩)
      exact ⟨⟨fun other member => all other
        (mem_append_left _ (mem_append_left _ member)),
        files name spec isImported described⟩, fun _ => all⟩
    · rintro name spec ⟨isNeeded, notFull⟩ described
      have isImported : IsImported repos entry known name := by
        cases isNeeded with
        | inl visited => exact .inr ⟨_, visited⟩
        | inr layer => exact .inr ⟨_, layer⟩
      refine ⟨⟨fun other member => (has other).mpr ?_, files name spec isImported described⟩,
        by simp⟩
      by_cases visited : Needed repos entry known .visited name
      · exact imported.root (by decide) visited described other member
      · exact imported.layer (isNeeded.resolve_left visited) notFull visited described other member

end

end

/-- What a correct import is. -/
structure Correct (remote : Remote Value) (coreRepos repos : Repositories Value) (foreignName : Str)
    (importMap : List (Str × Str)) (result : Imported Value) : Prop where
  main : foreignName ∈ result.orderedImports
  disjoint : ∀ name ∈ result.orderedImports, name ∉ result.extraImports
  named : result.assign.map (·.1) = result.orderedImports ++ result.extraImports
  once : (result.assign.map (·.1)).Nodup
  injective : ∀ left right name, (left, name) ∈ result.assign → (right, name) ∈ result.assign →
    left = right
  fresh : ∀ item ∈ result.assign, item.2 ∉ coreRepos.map (·.1)
  unchanged : ∀ name desc, find name coreRepos = some desc → find name result.newRepos = some desc
  imported : ∀ repo name, (repo, name) ∈ result.assign → ∃ spec desc, find repo repos = some spec ∧
    find name result.newRepos = some desc ∧
    RootRenamed remote (importMap ++ result.assign) spec.repository desc.repository ∧
    (repo ∈ result.orderedImports → RestRenamed (importMap ++ result.assign) spec desc) ∧
    ∀ other ∈ mentions desc, other ∈ importMap.map (·.2) ∨ other ∈ result.assign.map (·.2)

/-- When an import is correct: references are imported, and no two names clash. -/
structure Importable (remote : Remote Value) (coreRepos repos : Repositories Value)
    (foreignName importName : Str) (importMap : List (Str × Str)) : Prop where
  references : ReferencesImported remote repos foreignName (importMap.map (·.1))
  names : ¬∃ left right count, Clash importName
    (fun name => IsImported repos foreignName (importMap.map (·.1)) name ∧
      ¬(name = foreignName ∧ importName ∉ coreRepos.map (·.1)))
    (IsTaken repos foreignName (importMap.map (·.1)) (coreRepos.map (·.1))) left right count

omit [DecidableEq Value] in
theorem Ordered.length_le {repos : Repositories Value} {entry : Str} {known extra : List Str}
    (closed : Closed repos) (main : ∃ target, find entry repos = some target)
    (ordered : Ordered repos entry known imports extra) :
    (imports ++ extra).length ≤ repos.length := by
  have inside : imports ++ extra ⊆ repos.map (·.1) := by
    intro name member
    have present : ∃ target, find name repos = some target := by
      rcases (ordered.mem name).mp member with same | ⟨_, need⟩
      · exact same ▸ main
      · exact need.present closed main
    obtain ⟨target, described⟩ := present
    exact mem_map.mpr ⟨(name, target), mem_of_find described, rfl⟩
  have short := (List.subperm_of_subset ordered.nodup inside).length_le
  rwa [length_map] at short

theorem handleImport_shape {coreRepos repos : Repositories Value} {foreignName importName : Str}
    {importMap : List (Str × Str)} (closed : Closed repos)
    (main : ∃ target, find foreignName repos = some target) :
    ∃ enough, ∀ depth, enough ≤ depth → ∃ imports extra assign,
      Ordered repos foreignName (importMap.map (·.1)) imports extra ∧
      Named (coreRepos.map (·.1)) importName foreignName (imports ++ extra) assign ∧
      ∀ result, handleImport remote coreRepos repos foreignName importName importMap depth =
          some result ↔
        ∃ middle last, addImports remote repos assign (importMap ++ assign) false imports coreRepos =
            some middle ∧
          addImports remote repos assign (importMap ++ assign) true extra middle = some last ∧
          result = ⟨imports, extra, assign, last⟩ := by
  obtain ⟨enough, collects⟩ :=
    @reposToImport_collects _ repos foreignName (importMap.map (·.1)) closed main
  refine ⟨enough + coreRepos.length + repos.length + 2, fun depth large => ?_⟩
  obtain ⟨reached, called, collected⟩ := collects depth (by omega)
  have ordered := Collected.ordered collected
  have short := ordered.length_le closed main
  rw [length_append] at short
  obtain ⟨assign, assigned⟩ := @nameImports_ends (coreRepos.map (·.1)) importName foreignName
    (foreignName :: (reached.toImport.filter (· ≠ foreignName)).insertionSort (· ≤ ·))
    (reached.extraImports.insertionSort (· ≤ ·)) depth (by
      rw [length_map]
      omega)
  have distinct := nodup_cons.mp ordered.nodup
  have named := nameImports_spec (fun member => distinct.1 (mem_append_left _ member))
    (fun member => distinct.1 (mem_append_right _ member)) assigned
  refine ⟨_, _, assign, ordered, named, fun result => ?_⟩
  simp only [handleImport, called, bind_eq_bind, bind_some, assigned,
    bind_eq_some_iff, pure_def, some.injEq]
  constructor
  · rintro ⟨middle, first, last, second, rfl⟩
    exact ⟨middle, last, first, second, rfl⟩
  · rintro ⟨middle, last, first, second, rfl⟩
    exact ⟨middle, first, last, second, rfl⟩

/-- At every depth that is large enough, an import succeeds and is correct exactly if all references
of imported repositories are imported and no two names clash. -/
theorem import_correct_iff (remote : Remote Value) (coreRepos repos : Repositories Value)
    (foreignName importName : Str) (importMap : List (Str × Str)) (closed : Closed repos)
    (main : ∃ target, find foreignName repos = some target) :
    ∃ enough, ∀ depth, enough ≤ depth →
      ((∃ result, handleImport remote coreRepos repos foreignName importName importMap depth =
          some result ∧ Correct remote coreRepos repos foreignName importMap result) ↔
        Importable remote coreRepos repos foreignName importName importMap) := by
  obtain ⟨enough, shape⟩ := @handleImport_shape _ _ remote coreRepos repos foreignName importName
    importMap closed main
  refine ⟨enough, fun depth large => ?_⟩
  obtain ⟨imports, extra, assign, ordered, named, success⟩ := shape depth large
  have keysOnce : (assign.map (·.1)).Nodup := named.keys ▸ ordered.nodup
  have given : ∀ name, name ∈ imports ++ extra ↔ ∃ renamed, find name assign = some renamed := by
    intro name
    rw [← named.keys]
    exact mem_keys.trans isSome_iff_exists
  have unique : ∀ repo name, (repo, name) ∈ assign → find repo assign = some name := by
    intro repo name member
    refine find_of_unique member fun other again => ?_
    exact (Prod.mk.inj (List.inj_on_of_nodup_map keysOnce again member rfl)).2
  have has : ∀ other, (∃ renamed, find other (importMap ++ assign) = some renamed) ↔
      other ∈ importMap.map (·.1) ∨ IsImported repos foreignName (importMap.map (·.1)) other := by
    intro other
    rw [← ordered.mem, given, find_append, ← isSome_iff_exists, ← isSome_iff_exists,
      Option.isSome_or, or_eq_true, ← mem_keys]
  have present : ∀ name, IsImported repos foreignName (importMap.map (·.1)) name →
      ∃ spec, find name repos = some spec := by
    rintro name (same | ⟨_, need⟩)
    · exact same ▸ main
    · exact need.present closed main
  have names := @Named.injective_iff _ _ _ _ _ (fun name =>
      IsImported repos foreignName (importMap.map (·.1)) name ∧
        ¬(name = foreignName ∧ importName ∉ coreRepos.map (·.1))) _ named
    (ordered.before (coreRepos.map (·.1))) fun name => and_congr_left' (ordered.mem name).symm
  -- The loops succeed exactly if all references are imported.
  have loops : ((∀ repo ∈ imports, ∃ spec name, find repo repos = some spec ∧
        find repo assign = some name ∧ Rewritable remote (importMap ++ assign) false spec) ∧
      ∀ repo ∈ extra, ∃ spec name, find repo repos = some spec ∧
        find repo assign = some name ∧ Rewritable remote (importMap ++ assign) true spec) ↔
      ReferencesImported remote repos foreignName (importMap.map (·.1)) := by
    rw [← rewritable_iff has]
    constructor
    · rintro ⟨full, layer⟩
      constructor
      · intro name spec isFull described
        obtain ⟨_, _, again, _, rewritable⟩ := full name ((ordered.memImports name).mpr isFull)
        rw [described] at again
        cases again
        exact rewritable
      · intro name spec isLayer described
        obtain ⟨_, _, again, _, rewritable⟩ := layer name ((ordered.memExtra name).mpr isLayer)
        rw [described] at again
        cases again
        exact rewritable
    · rintro ⟨full, layer⟩
      constructor
      · intro repo member
        obtain ⟨spec, described⟩ := present repo ((ordered.mem repo).mp (mem_append_left _ member))
        obtain ⟨name, assigned⟩ := (given repo).mp (mem_append_left _ member)
        exact ⟨spec, name, described, assigned,
          full repo spec ((ordered.memImports repo).mp member) described⟩
      · intro repo member
        obtain ⟨spec, described⟩ := present repo ((ordered.mem repo).mp (mem_append_right _ member))
        obtain ⟨name, assigned⟩ := (given repo).mp (mem_append_right _ member)
        exact ⟨spec, name, described, assigned,
          layer repo spec ((ordered.memExtra repo).mp member) described⟩
  constructor
  · rintro ⟨result, ran, correct⟩
    obtain ⟨middle, last, first, second, rfl⟩ := (success result).mp ran
    exact ⟨loops.mp ⟨(addImports_isSome_iff _).mp ⟨middle, first⟩,
      (addImports_isSome_iff _).mp ⟨last, second⟩⟩, names.mp correct.injective⟩
  · rintro ⟨references, noClash⟩
    obtain ⟨full, layer⟩ := loops.mpr references
    obtain ⟨middle, first⟩ := (addImports_isSome_iff coreRepos).mpr full
    obtain ⟨last, second⟩ := (addImports_isSome_iff middle).mpr layer
    have injective := names.mpr noClash
    have foundInjective : ∀ left right name, find left assign = some name →
        find right assign = some name → left = right := fun left right name first second =>
      injective left right name (mem_of_find first) (mem_of_find second)
    obtain ⟨onceFull, onceLayer, apart⟩ := nodup_append.mp ordered.nodup
    obtain ⟨firstEach, firstOthers⟩ := addImports_spec onceFull foundInjective first
    obtain ⟨secondEach, secondOthers⟩ := addImports_spec onceLayer foundInjective second
    have disjoint : ∀ name ∈ imports, name ∉ extra := fun name member inExtra =>
      apart name member name inExtra rfl
    refine ⟨⟨imports, extra, assign, last⟩, (success _).mpr ⟨middle, last, first, second, rfl⟩,
      (ordered.memImports foreignName).mpr (.inl rfl), disjoint, named.keys, keysOnce, injective,
      fun item member => named.fresh member, ?_, ?_⟩
    · intro name desc described
      have inUse : name ∈ coreRepos.map (·.1) :=
        mem_map.mpr ⟨(name, desc), mem_of_find described, rfl⟩
      have foreign : ∀ repo, find repo assign ≠ some name := fun repo assigned =>
        named.fresh (mem_of_find assigned) inUse
      rw [secondOthers name fun repo _ => foreign repo, firstOthers name fun repo _ => foreign repo,
        described]
    · intro repo name member
      have assigned := unique repo name member
      have isListed : repo ∈ imports ++ extra := (given repo).mpr ⟨name, assigned⟩
      have values : ∀ other, other ∈ (importMap ++ assign).map (·.2) →
          other ∈ importMap.map (·.2) ∨ other ∈ assign.map (·.2) := by
        intro other value
        rw [map_append] at value
        exact mem_append.mp value
      rcases mem_append.mp isListed with inImports | inExtra
      · obtain ⟨spec, _, desc, described, again, rewritten, stored⟩ := firstEach repo inImports
        rw [assigned] at again
        cases again
        have renamed := rewriteRepo_renamed rewritten
        refine ⟨spec, desc, described, ?_, renamed.root, fun _ => renamed.rest rfl,
          fun other mentioned => values other (renamed.closed other mentioned)⟩
        rw [secondOthers name fun other inExtra found =>
          disjoint repo inImports (foundInjective _ _ _ assigned found ▸ inExtra), stored]
      · obtain ⟨spec, _, desc, described, again, rewritten, stored⟩ := secondEach repo inExtra
        rw [assigned] at again
        cases again
        have renamed := rewriteRepo_renamed rewritten
        exact ⟨spec, desc, described, stored, renamed.root,
          fun inImports => absurd inExtra (disjoint repo inImports),
          fun other mentioned => values other (renamed.closed other mentioned)⟩

/-- A repository that is described by its bindings alone. -/
def bare (bindings : List (Str × Str)) : Repository Unit :=
  ⟨.root ⟨.other (), none⟩, none, none, none, none, none, none, some bindings⟩

/-- A configuration where one repository is called like another one with a number. -/
def numberedRepos : Repositories Unit :=
  [(lit "m", bare [(lit "left", lit "x"), (lit "right", lit "x (1)")]), (lit "x", bare []),
    (lit "x (1)", bare [])]

/-- A remote where nothing is to be done. -/
def plainRemote : Remote Unit where
  rewriteFileRepo root := some { root with kind := .other () }
  no_references root root' same := by
    cases same
    exact ⟨rfl, fun _ absurd => nomatch absurd⟩
  importPragma := .empty
  pragmaSpecial := none

theorem numberedRepos_closed : Closed numberedRepos := by
  constructor
  · intro name desc described other member
    have entries := mem_of_find described
    simp only [numberedRepos, mem_cons, not_mem_nil, or_false, Prod.mk.injEq] at entries
    rcases entries with ⟨_, rfl⟩ | ⟨_, rfl⟩ | ⟨_, rfl⟩
    · rcases mem_cons.mp member with rfl | member
      · exact ⟨bare [], by decide⟩
      · cases mem_singleton.mp member
        exact ⟨bare [], by decide⟩
    · cases member
    · cases member
  · refine ⟨fun _ => 0, fun name desc other described named => ?_⟩
    have entries := mem_of_find described
    simp only [numberedRepos, mem_cons, not_mem_nil, or_false, Prod.mk.injEq] at entries
    rcases entries with ⟨_, rfl⟩ | ⟨_, rfl⟩ | ⟨_, rfl⟩ <;> cases named

theorem numberedRepos_iff : ∃ enough, ∀ depth, enough ≤ depth →
    ((∃ result, handleImport plainRemote [(lit "b/x", bare [])] numberedRepos (lit "m") (lit "b") []
        depth = some result ∧
        Correct plainRemote [(lit "b/x", bare [])] numberedRepos (lit "m") [] result) ↔
      Importable plainRemote [(lit "b/x", bare [])] numberedRepos (lit "m") (lit "b") []) :=
  import_correct_iff plainRemote [(lit "b/x", bare [])] numberedRepos (lit "m") (lit "b") []
    numberedRepos_closed ⟨_, rfl⟩

theorem numberedRepos_clash : Closed numberedRepos ∧
    ∃ result, handleImport plainRemote [(lit "b/x", bare [])] numberedRepos (lit "m") (lit "b") []
        8 = some result ∧
      (lit "x", lit "b/x (1)") ∈ result.assign ∧ (lit "x (1)", lit "b/x (1)") ∈ result.assign ∧
      result.newRepos.length = 3 := by
  refine ⟨numberedRepos_closed, ?_⟩
  have ran : (handleImport plainRemote [(lit "b/x", bare [])] numberedRepos (lit "m") (lit "b") []
      8).any (fun result => (lit "x", lit "b/x (1)") ∈ result.assign ∧
        (lit "x (1)", lit "b/x (1)") ∈ result.assign ∧ result.newRepos.length = 3) = true := by
    decide
  obtain ⟨result, same, both⟩ := (Option.any_eq_true _ _).mp ran
  exact ⟨result, same, of_decide_eq_true both⟩

end Jst.Verif.RepoImports
