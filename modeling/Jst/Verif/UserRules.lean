import Jst.Target.UserRule
/-!
# Fields of user-defined rules

The comparison of sorted lists finds exactly the names that occur in two of them. So a rule is
created exactly if its fields are distinct, none of them is reserved, and all transitions are for
fields that refer to targets.
-/
namespace Jst.Verif.UserRules

open SortedMap Target Expression

/-- A list of names is sorted. -/
abbrev IsSorted (names : List Str) : Prop := names.Pairwise (· ≤ ·)

theorem isSorted_sortFields (names : List Str) : IsSorted (sortFields names) :=
  List.pairwise_insertionSort _ names

@[simp] theorem mem_sortFields (names : List Str) (name : Str) :
    name ∈ sortFields names ↔ name ∈ names :=
  List.mem_insertionSort _

theorem not_mem_of_lt {name first : Str} {rest : List Str} (ordered : IsSorted (first :: rest))
    (smaller : name < first) : name ∉ first :: rest := by
  intro inside
  cases mem_cons.mp inside with
  | inl same => exact absurd smaller (same ▸ lt_irrefl name)
  | inr later =>
    have bound := (pairwise_cons.mp ordered).1 name later
    exact absurd (lt_of_lt_of_le smaller bound) (lt_irrefl name)

theorem mem_setIntersection {first second : List Str} (firstSorted : IsSorted first)
    (secondSorted : IsSorted second) (name : Str) :
    name ∈ setIntersection first second ↔ name ∈ first ∧ name ∈ second := by
  fun_induction setIntersection first second with
  | case1 second => simp
  | case2 first _ => simp
  | case3 left lefts right rights smaller step =>
    have outside := not_mem_of_lt secondSorted smaller
    rw [step (pairwise_cons.mp firstSorted).2 secondSorted, mem_cons (l := lefts)]
    constructor
    · exact fun both => ⟨.inr both.1, both.2⟩
    · rintro ⟨same | later, inside⟩
      · exact absurd (same ▸ inside) outside
      · exact ⟨later, inside⟩
  | case4 left lefts right rights _ smaller step =>
    have outside := not_mem_of_lt firstSorted smaller
    rw [step firstSorted (pairwise_cons.mp secondSorted).2, mem_cons (l := rights)]
    constructor
    · exact fun both => ⟨both.1, .inr both.2⟩
    · rintro ⟨inside, same | later⟩
      · exact absurd (same ▸ inside) outside
      · exact ⟨inside, later⟩
  | case5 left lefts right rights notSmaller notLarger step =>
    have same : left = right := le_antisymm (not_lt.mp notLarger) (not_lt.mp notSmaller)
    subst same
    obtain ⟨firstBound, firstRest⟩ := pairwise_cons.mp firstSorted
    rw [mem_cons, step firstRest (pairwise_cons.mp secondSorted).2, mem_cons, mem_cons]
    tauto

theorem mem_insertAll (names dups : List Str) (name : Str) :
    name ∈ names.foldl (fun dups name => dups.insert name) dups ↔ name ∈ dups ∨ name ∈ names := by
  induction names generalizing dups with
  | nil => simp
  | cons head rest step =>
    rw [foldl_cons, step, List.mem_insert_iff, mem_cons]
    tauto

theorem mem_findDuplicates_linear (name : Str) {first : List Str} (firstSorted : IsSorted first)
    (rest : List (List Str)) (dups second : List Str)
    (allSorted : ∀ other ∈ second :: rest, IsSorted other) :
    name ∈ findDuplicates false dups first second rest ↔
      name ∈ dups ∨ name ∈ first ∧ ∃ other ∈ second :: rest, name ∈ other := by
  obtain ⟨secondSorted, restSorted⟩ := forall_mem_cons.mp allSorted
  induction rest generalizing dups second with
  | nil =>
    rw [findDuplicates, mem_insertAll, mem_setIntersection firstSorted secondSorted]
    simp
  | cons third rest step =>
    obtain ⟨thirdSorted, others⟩ := forall_mem_cons.mp restSorted
    rw [findDuplicates]
    simp only [false_eq_true, ↓reduceIte]
    rw [step _ third restSorted thirdSorted others, mem_insertAll,
      mem_setIntersection firstSorted secondSorted]
    simp only [mem_cons, exists_eq_or_imp]
    tauto

/-- A name is in two of the lists. -/
def InTwo (name : Str) : List (List Str) → Prop
  | [] => False
  | first :: rest => (name ∈ first ∧ ∃ other ∈ rest, name ∈ other) ∨ InTwo name rest

theorem mem_findDuplicates_triangular (name : Str) (rest : List (List Str))
    (dups first second : List Str) (allSorted : ∀ other ∈ first :: second :: rest, IsSorted other) :
    name ∈ findDuplicates true dups first second rest ↔
      name ∈ dups ∨ InTwo name (first :: second :: rest) := by
  obtain ⟨firstSorted, othersSorted⟩ := forall_mem_cons.mp allSorted
  obtain ⟨secondSorted, restSorted⟩ := forall_mem_cons.mp othersSorted
  induction rest generalizing dups first second with
  | nil =>
    rw [findDuplicates, mem_insertAll, mem_setIntersection firstSorted secondSorted]
    simp [InTwo]
  | cons third rest step =>
    obtain ⟨thirdSorted, others⟩ := forall_mem_cons.mp restSorted
    have parts : (∃ other ∈ second :: third :: rest, name ∈ other) ↔
        name ∈ second ∨ ∃ other ∈ third :: rest, name ∈ other := List.exists_mem_cons_iff _ _ _
    rw [findDuplicates]
    simp only [↓reduceIte]
    rw [step _ second third othersSorted secondSorted restSorted thirdSorted others,
      mem_findDuplicates_linear name firstSorted rest _ third restSorted, mem_insertAll,
      mem_setIntersection firstSorted secondSorted, InTwo.eq_2 _ first, parts,
      and_or_left, or_assoc, or_assoc, or_assoc]

theorem forall_not_inTwo (lists : List (List Str)) :
    (∀ name, ¬ InTwo name lists) ↔ lists.Pairwise List.Disjoint := by
  induction lists with
  | nil => simp [InTwo]
  | cons first rest step =>
    rw [pairwise_cons, ← step]
    simp only [InTwo, not_or, forall_and, not_and, not_exists]
    constructor
    · rintro ⟨apart, others⟩
      exact ⟨fun other inside name here there => apart name here other inside there, others⟩
    · rintro ⟨apart, others⟩
      exact ⟨fun name here other inside there => apart other inside here there, others⟩

theorem isEmpty_iff (dups : List Str) : dups.isEmpty = true ↔ ∀ name, name ∉ dups := by
  rw [List.isEmpty_iff, List.eq_nil_iff_forall_not_mem]

theorem sameSet_iff (left right : List Str) :
    sameSet left right = true ↔ ∀ name, name ∈ left ↔ name ∈ right := by
  simp only [sameSet, and_eq_true, List.all_eq_true, decide_eq_true_eq]
  constructor
  · exact fun both name => ⟨both.1 name, both.2 name⟩
  · exact fun same => ⟨fun name => (same name).mp, fun name => (same name).mpr⟩

section Transitions

variable {V : Type}

theorem find_emplace (map : UnorderedMap V) (key query : Str) (value : V) :
    find query (map.emplace key value).entries =
      (find query map.entries).or (if key = query then some value else none) := by
  unfold UnorderedMap.emplace
  split
  · next inside =>
    by_cases same : key = query
    · subst same
      obtain ⟨stored, found⟩ := isSome_iff_exists.mp (mem_keys.mp inside)
      simp [found]
    · simp [same]
  · have appended := find_append query map.entries [(key, value)]
    rw [find_cons, find_nil] at appended
    refine appended.trans ?_
    congr

theorem find_setTransitions (emptyTransition : V) (fields : List Str) (transitions : UnorderedMap V)
    (name : Str) : find name (setTransitions emptyTransition fields transitions).entries =
      (find name transitions.entries).or (if name ∈ fields then some emptyTransition else none) := by
  unfold setTransitions
  induction fields generalizing transitions with
  | nil => simp
  | cons field rest step =>
    rw [foldl_cons, step, find_emplace, Option.or_assoc]
    by_cases same : field = name
    · subst same
      simp
    · simp [same, Ne.symm same]

end Transitions

variable {Name Function : Type}

/-- The five sets of fields. -/
def fieldSets (targetFields stringFields configFields : List Str)
    (implicitTargets : UnorderedMap (List Name)) (anonymousDefs : UnorderedMap AnonymousDefinition) :
    List (List Str) :=
  [targetFields, stringFields, configFields, implicitTargets.keys, anonymousDefs.keys]

/-- The fields that refer to targets. -/
def isTargetField (targetFields : List Str) (implicitTargets : UnorderedMap (List Name))
    (anonymousDefs : UnorderedMap AnonymousDefinition) (name : Str) : Prop :=
  name ∈ targetFields ∨ name ∈ implicitTargets.keys ∨ name ∈ anonymousDefs.keys

instance (targetFields : List Str) (implicitTargets : UnorderedMap (List Name))
    (anonymousDefs : UnorderedMap AnonymousDefinition) (name : Str) :
    Decidable (isTargetField targetFields implicitTargets anonymousDefs name) :=
  inferInstanceAs (Decidable (_ ∨ _ ∨ _))

/-- What has to hold of the fields for a rule to be created. -/
structure FieldsFit (targetFields stringFields configFields : List Str)
    (implicitTargets : UnorderedMap (List Name)) (anonymousDefs : UnorderedMap AnonymousDefinition)
    (configTransitions : UnorderedMap Function) : Prop where
  notReserved : ∀ fields ∈ fieldSets targetFields stringFields configFields implicitTargets
    anonymousDefs, ∀ field ∈ fields, field ∉ reservedKeywords
  oneType : (fieldSets targetFields stringFields configFields implicitTargets
    anonymousDefs).Pairwise List.Disjoint
  transitions : ∀ name ∈ configTransitions.keys,
    isTargetField targetFields implicitTargets anonymousDefs name

section Creation

variable {targetFields stringFields configFields : List Str}
variable {implicitTargets : UnorderedMap (List Name)}
variable {anonymousDefs : UnorderedMap AnonymousDefinition}
variable {configTransitions : UnorderedMap Function}

/-- The sorted sets of fields. -/
def sortedSets (targetFields stringFields configFields : List Str)
    (implicitTargets : UnorderedMap (List Name)) (anonymousDefs : UnorderedMap AnonymousDefinition) :
    List (List Str) :=
  (fieldSets targetFields stringFields configFields implicitTargets anonymousDefs).map sortFields

theorem isSorted_reservedKeywords : IsSorted reservedKeywords := by decide

theorem isSorted_map (lists : List (List Str)) :
    ∀ other ∈ lists.map sortFields, IsSorted other := by
  intro other inside
  obtain ⟨list, -, rfl⟩ := mem_map.mp inside
  exact isSorted_sortFields list

theorem reserved_iff :
    (getDuplicates false reservedKeywords (sortedSets targetFields stringFields configFields
      implicitTargets anonymousDefs)).isEmpty = true ↔
      ∀ fields ∈ fieldSets targetFields stringFields configFields implicitTargets anonymousDefs,
        ∀ field ∈ fields, field ∉ reservedKeywords := by
  rw [isEmpty_iff]
  have found : ∀ name, name ∈ getDuplicates false reservedKeywords (sortedSets targetFields
      stringFields configFields implicitTargets anonymousDefs) ↔
        name ∈ reservedKeywords ∧ ∃ fields ∈ fieldSets targetFields stringFields configFields
          implicitTargets anonymousDefs, name ∈ fields := by
    intro name
    have linear := mem_findDuplicates_linear name isSorted_reservedKeywords
      ((fieldSets targetFields stringFields configFields implicitTargets anonymousDefs).map
        sortFields).tail [] (sortFields targetFields) (isSorted_map (fieldSets targetFields
        stringFields configFields implicitTargets anonymousDefs))
    refine linear.trans ?_
    simp [fieldSets]
  simp only [found, not_and, not_exists]
  exact ⟨fun none fields inside field here reserved => none field reserved fields inside here,
    fun none name reserved fields inside here => none fields inside name here reserved⟩

theorem oneType_iff :
    (getDuplicates true (sortFields targetFields) [sortFields stringFields, sortFields configFields,
      sortFields implicitTargets.keys, sortFields anonymousDefs.keys]).isEmpty = true ↔
      (fieldSets targetFields stringFields configFields implicitTargets
        anonymousDefs).Pairwise List.Disjoint := by
  rw [isEmpty_iff]
  have found : ∀ name, name ∈ getDuplicates true (sortFields targetFields)
      [sortFields stringFields, sortFields configFields, sortFields implicitTargets.keys,
        sortFields anonymousDefs.keys] ↔ InTwo name (fieldSets targetFields stringFields
          configFields implicitTargets anonymousDefs) := by
    intro name
    have triangular := mem_findDuplicates_triangular name [sortFields configFields,
      sortFields implicitTargets.keys, sortFields anonymousDefs.keys] []
      (sortFields targetFields) (sortFields stringFields) (isSorted_map (fieldSets targetFields
        stringFields configFields implicitTargets anonymousDefs))
    refine triangular.trans ?_
    simp [InTwo, fieldSets]
  simp only [found]
  exact forall_not_inTwo _

theorem transitions_iff :
    sameSet (getDuplicates false (sortFields configTransitions.keys) [sortFields targetFields,
      sortFields implicitTargets.keys, sortFields anonymousDefs.keys])
      (sortFields configTransitions.keys) = true ↔ ∀ name ∈ configTransitions.keys,
        isTargetField targetFields implicitTargets anonymousDefs name := by
  rw [sameSet_iff]
  have found : ∀ name, name ∈ getDuplicates false (sortFields configTransitions.keys)
      [sortFields targetFields, sortFields implicitTargets.keys, sortFields anonymousDefs.keys] ↔
        name ∈ configTransitions.keys ∧
          isTargetField targetFields implicitTargets anonymousDefs name := by
    intro name
    have linear := mem_findDuplicates_linear name (isSorted_sortFields configTransitions.keys)
      [sortFields implicitTargets.keys, sortFields anonymousDefs.keys] []
      (sortFields targetFields)
      (isSorted_map [targetFields, implicitTargets.keys, anonymousDefs.keys])
    refine linear.trans ?_
    simp [isTargetField]
  simp only [found, mem_sortFields]
  exact ⟨fun same name inside => ((same name).mpr inside).2,
    fun all name => ⟨And.left, fun inside => ⟨inside, all name inside⟩⟩⟩

variable {nameExpression : Name → Value} {emptyTransition : Function}
variable {printed : List Str → List Str} {configVars tainted : List Str} {expr : Function}

theorem spec_of_create {rule : UserRule Name Function}
    (created : UserRule.create nameExpression emptyTransition printed targetFields stringFields
      configFields implicitTargets anonymousDefs configVars tainted configTransitions expr =
        .ok rule) : FieldsFit targetFields stringFields configFields implicitTargets anonymousDefs
        configTransitions ∧
      rule.configTransitions = setTransitions emptyTransition (sortFields anonymousDefs.keys)
        (setTransitions emptyTransition (sortFields implicitTargets.keys)
          (setTransitions emptyTransition (sortFields targetFields) configTransitions)) := by
  unfold UserRule.create at created
  dsimp only at created
  split at created
  · cases created
  · next notReserved =>
    split at created
    · cases created
    · next oneType =>
      split at created
      · cases created
      · next transitions =>
        rw [Bool.not_eq_true', Bool.not_eq_false] at notReserved oneType transitions
        cases created
        exact ⟨⟨reserved_iff.mp notReserved, oneType_iff.mp oneType,
          transitions_iff.mp transitions⟩, rfl⟩

theorem create_of_fits (fits : FieldsFit targetFields stringFields configFields implicitTargets
    anonymousDefs configTransitions) :
    ∃ rule, UserRule.create nameExpression emptyTransition printed targetFields stringFields
      configFields implicitTargets anonymousDefs configVars tainted configTransitions expr =
        .ok rule := by
  have notReserved := reserved_iff.mpr fits.notReserved
  have oneType := oneType_iff.mpr fits.oneType
  have transitions := transitions_iff.mpr fits.transitions
  unfold UserRule.create
  dsimp only
  rw [if_neg, if_neg, if_neg]
  · exact ⟨_, rfl⟩
  · rw [transitions]
    exact false_ne_true
  · rw [oneType]
    exact false_ne_true
  · rw [Bool.not_eq_true', Bool.not_eq_false]
    exact notReserved

/-- A rule is created exactly if no field is reserved, no name is a field of two kinds, and all
transitions are for fields that refer to targets. In the rule all these fields have a transition,
which is the declared one if there is one. -/
theorem user_rule_created_iff (nameExpression : Name → Value) (emptyTransition : Function)
    (printed : List Str → List Str) (targetFields stringFields configFields : List Str)
    (implicitTargets : UnorderedMap (List Name)) (anonymousDefs : UnorderedMap AnonymousDefinition)
    (configVars tainted : List Str) (configTransitions : UnorderedMap Function) (expr : Function) :
    ((∃ rule, UserRule.create nameExpression emptyTransition printed targetFields stringFields
        configFields implicitTargets anonymousDefs configVars tainted configTransitions expr =
          .ok rule) ↔
      FieldsFit targetFields stringFields configFields implicitTargets anonymousDefs
        configTransitions) ∧
    ∀ rule, UserRule.create nameExpression emptyTransition printed targetFields stringFields
        configFields implicitTargets anonymousDefs configVars tainted configTransitions expr =
          .ok rule →
      ∀ name, find name rule.configTransitions.entries =
        (find name configTransitions.entries).or
          (if isTargetField targetFields implicitTargets anonymousDefs name
            then some emptyTransition else none) := by
  refine ⟨⟨fun ⟨_, created⟩ => (spec_of_create created).1, create_of_fits⟩, ?_⟩
  intro rule created name
  rw [(spec_of_create created).2, find_setTransitions, find_setTransitions, find_setTransitions]
  simp only [mem_sortFields, Option.or_assoc]
  congr 1
  by_cases target : name ∈ targetFields
  · simp [isTargetField, target]
  · by_cases implicit : name ∈ implicitTargets.keys
    · simp [isTargetField, target, implicit]
    · simp [isTargetField, target, implicit]

theorem user_rule_created_iff_library :
    ∃ rule, UserRule.create (fun _ : Unit => Value.none) () id [lit "srcs", lit "srcs"]
      [lit "name"] [] ⟨[(lit "compiler", [])], by decide⟩ ⟨[], by decide⟩ [] []
      ⟨[(lit "compiler", ())], by decide⟩ () = .ok rule := by
  refine (user_rule_created_iff (fun _ : Unit => Value.none) () id [lit "srcs", lit "srcs"]
    [lit "name"] [] ⟨[(lit "compiler", [])], by decide⟩ ⟨[], by decide⟩ [] []
    ⟨[(lit "compiler", ())], by decide⟩ ()).1.mpr ⟨?_, ?_, ?_⟩
  · decide
  · refine (forall_not_inTwo _).mp fun name => ?_
    have apart : lit "srcs" ≠ lit "name" ∧ lit "srcs" ≠ lit "compiler" ∧
        lit "name" ≠ lit "compiler" := by decide
    simp only [InTwo, fieldSets, UnorderedMap.keys]
    aesop
  · decide

end Creation

end Jst.Verif.UserRules
