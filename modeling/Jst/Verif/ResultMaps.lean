import Jst.Target.ResultMap
import Jst.Verif.TargetResultRoundTrip
import Mathlib.Data.List.Induction
import Mathlib.Data.List.Nodup
import Mathlib.Data.Sum.Order
/-!
# The result map is listed in one way

The comparisons by which origins and objects are sorted are comparisons of keys in linear orders,
and what is the same has the same key. So what is listed, and in which order, is known from what was
added. Equal keys are written as the same JSON, as the hash of an expression determines how it is
written.
-/
namespace Jst.Verif.ResultMaps

open Jst.Target Jst.Sorting Jst.SortedMap Jst.Expression Jst.Expression.Expr Jst.Number
  Jst.Verif.ExpressionHash Jst.Verif.TargetResultRoundTrip
open List (Nodup map_flatMap map_id mem_flatMap)

variable {doubleText : Double → Str} {sha : Str → Str}

/-! ## What has a hash has a JSON -/

mutual
theorem json_of_hash : ∀ (expr : Expr) {hash : Str}, (view doubleText sha expr).hash = some hash →
    ∃ json, (view doubleText sha expr).all = some json
  | .none, _, hashed | .bool _, _, hashed | .number _, _, hashed | .string _, _, hashed
  | .namedTarget _, _, hashed | .anonymousTarget _ _, _, hashed | .artifact _, _, hashed
  | .result _ _ _ _, _, hashed | .valueNode _, _, hashed | .abstractNode _ _ _, _, hashed => by
    obtain ⟨json, -, found, -, -⟩ := hashJson_eq_some hashed
    exact ⟨json, found⟩
  | .list items, _, hashed => by
    obtain ⟨hashes, found, -⟩ := map_eq_some_iff.mp hashed
    obtain ⟨list, written⟩ := json_of_hashes items found
    exact ⟨_, map_eq_some_iff.mpr ⟨list, written, rfl⟩⟩
  | .map fields, _, hashed => by
    obtain ⟨hashes, found, -⟩ := map_eq_some_iff.mp hashed
    obtain ⟨list, written⟩ := json_of_fieldHashes fields found
    exact ⟨_, map_eq_some_iff.mpr ⟨list, written, rfl⟩⟩

theorem json_of_hashes : ∀ (items : List Expr) {hashes : Str},
    (viewItems doubleText sha items).hash = some hashes →
    ∃ list, (viewItems doubleText sha items).all = some list
  | [], _, _ => ⟨[], rfl⟩
  | item :: rest, _, hashed => by
    obtain ⟨first, more, hashedFirst, hashedMore, -⟩ := hash_viewItems hashed
    obtain ⟨json, written⟩ := json_of_hash item hashedFirst
    obtain ⟨list, writtenRest⟩ := json_of_hashes rest hashedMore
    refine ⟨json :: list, ?_⟩
    simp only [viewItems, written, writtenRest, bind_eq_bind, bind_some]

theorem json_of_fieldHashes : ∀ (fields : List (Str × Expr)) {hashes : Str},
    (viewFields doubleText sha fields).hash = some hashes →
    ∃ list, (viewFields doubleText sha fields).all = some list
  | [], _, _ => ⟨[], rfl⟩
  | (key, value) :: rest, _, hashed => by
    obtain ⟨first, more, hashedFirst, hashedMore, -⟩ := hash_viewFields hashed
    obtain ⟨json, written⟩ := json_of_hash value hashedFirst
    obtain ⟨list, writtenRest⟩ := json_of_fieldHashes rest hashedMore
    refine ⟨(key, json) :: list, ?_⟩
    simp only [viewFields, written, writtenRest, bind_eq_bind, bind_some]
end

theorem ptr_toJson (ptr : ExpressionPtr doubleText sha) :
    ptr.expr.toJson doubleText sha .serializeAll = some ptr.toJson := by
  obtain ⟨json, written⟩ := json_of_hash ptr.expr ptr.hashed
  have found : ptr.expr.toJson doubleText sha .serializeAll = some json := written
  rw [ExpressionPtr.toJson, found, getD_some]

/-! ## Keys -/

/-- The key of a named target. -/
abbrev NameKey := Str ×ₗ Str ×ₗ Str ×ₗ Nat

/-- The key of a target and its configuration. -/
abbrev TargetKey := (NameKey ⊕ₗ (Str ×ₗ Str)) ×ₗ Str

/-- The key of a named target. -/
def nameKey (name : NamedTarget) : NameKey :=
  toLex (name.repository, toLex (name.module, toLex (name.name, referenceIndex name.referenceType)))

/-- The key of a name. -/
def entityKey : EntityName doubleText sha → NameKey ⊕ₗ (Str ×ₗ Str)
  | .named name => toLex (.inl (nameKey name))
  | .anonymous target => toLex (.inr (toLex (target.ruleMap.hash, target.targetNode.hash)))

/-- The key of a configured target. -/
def targetKey (target : ConfiguredTarget doubleText sha) : TargetKey :=
  toLex (entityKey target.target, target.config.hash)

/-- The key of an origin. -/
def originKey (origin : Origin doubleText sha) : TargetKey ×ₗ Nat :=
  toLex (targetKey origin.1, origin.2)

theorem referenceIndex_inj {left right : ReferenceType} :
    referenceIndex left = referenceIndex right ↔ left = right := by
  cases left <;> cases right <;> decide

theorem compares_namedTarget : Compares nameKey lessNamedTarget := by
  intro name other
  unfold lessNamedTarget nameKey
  simp only [Prod.Lex.toLex_lt_toLex]
  split
  · next different =>
    simp only [different, false_and, or_false, decide_eq_true_eq]
    exact Iff.rfl
  · next equal =>
    simp only [not_not.mp equal, lt_irrefl, true_and, false_or]
    split
    · next different =>
      simp only [different, false_and, or_false, decide_eq_true_eq]
      exact Iff.rfl
    · next equal =>
      simp only [not_not.mp equal, lt_irrefl, true_and, false_or]
      split
      · next different =>
        simp only [different, false_and, or_false, decide_eq_true_eq]
        exact Iff.rfl
      · next equal => simp only [not_not.mp equal, lt_irrefl, true_and, false_or, decide_eq_true_eq]

theorem nameKey_inj {left right : NamedTarget} : nameKey left = nameKey right ↔ left = right := by
  obtain ⟨repository, module, name, type⟩ := left
  obtain ⟨repository', module', name', type'⟩ := right
  simp only [nameKey, toLex_inj, Prod.mk.injEq, referenceIndex_inj, NamedTarget.mk.injEq]

theorem compares_ptr : Compares (@ExpressionPtr.hash doubleText sha) ExpressionPtr.less :=
  fun _ _ => decide_eq_true_iff

theorem identifies_ptr : Identifies (@ExpressionPtr.hash doubleText sha) ExpressionPtr.same :=
  fun _ _ => decide_eq_true_iff

theorem compares_anonymousTarget : Compares (fun target : AnonymousTarget doubleText sha =>
    toLex (target.ruleMap.hash, target.targetNode.hash)) AnonymousTarget.less :=
  Compares.lex (fun target other => compares_ptr target.ruleMap other.ruleMap)
    fun target other => compares_ptr target.targetNode other.targetNode

theorem compares_entityName : Compares (@entityKey doubleText sha) EntityName.less := by
  intro name other
  cases name with
  | named name =>
    cases other with
    | named other => exact (compares_namedTarget name other).trans Sum.Lex.inl_lt_inl_iff.symm
    | anonymous other => exact ⟨fun _ => Sum.Lex.inl_lt_inr _ _, fun _ => rfl⟩
  | anonymous target =>
    cases other with
    | named other => exact ⟨nofun, fun less => absurd less Sum.Lex.not_inr_lt_inl⟩
    | anonymous other =>
      exact (compares_anonymousTarget target other).trans Sum.Lex.inr_lt_inr_iff.symm

theorem identifies_entityName : Identifies (@entityKey doubleText sha) EntityName.same := by
  intro name other
  cases name with
  | named name =>
    cases other with
    | named other => simp [EntityName.same, entityKey, nameKey_inj]
    | anonymous other => simp [EntityName.same, entityKey]
  | anonymous target =>
    cases other with
    | named other => simp [EntityName.same, entityKey]
    | anonymous other =>
      simp [EntityName.same, entityKey, AnonymousTarget.same, ExpressionPtr.same]

theorem compares_target : Compares (@targetKey doubleText sha) ConfiguredTarget.less :=
  Compares.lex (fun target other => compares_entityName target.target other.target)
    fun target other => compares_ptr target.config other.config

theorem identifies_target : Identifies (@targetKey doubleText sha) ConfiguredTarget.same :=
  Identifies.lex (fun target other => identifies_entityName target.target other.target)
    fun target other => identifies_ptr target.config other.config

theorem compares_origin : Compares (@originKey doubleText sha) lessOrigin := by
  intro left right
  rw [lessOrigin, originKey, originKey, Prod.Lex.toLex_lt_toLex, or_eq_true, and_eq_true,
    compares_target, identifies_target, decide_eq_true_iff]

theorem compares_id {Object : Type} (id : Object → Str) :
    Compares id fun left right => id left < id right := fun _ _ => decide_eq_true_iff

theorem identifies_id {Object : Type} (id : Object → Str) :
    Identifies id fun left right => id left = id right := fun _ _ => decide_eq_true_iff

/-! ## What is in the map -/

variable {library : Library doubleText sha} {map : ResultTargetMap doubleText sha}
  {additions : List (Addition doubleText sha)}

/-- The entries of a map: each was added, stands in the shard of its name, and there is exactly one
with the key of everything that was added. -/
structure Holds (library : Library doubleText sha) (map : ResultTargetMap doubleText sha)
    (additions : List (Addition doubleText sha)) : Prop where
  added : ∀ part, ∀ entry ∈ map.targets part, entry ∈ additions
  shard : ∀ part, ∀ entry ∈ map.targets part, library.hashName entry.1.target % map.width = part
  once : ∀ part, ((map.targets part).map fun entry => targetKey entry.1).Nodup
  all : ∀ addition ∈ additions, ∃ entry ∈ map.targets (library.hashName addition.1.target % map.width),
    targetKey entry.1 = targetKey addition.1

theorem holds_empty (width : Nat) : Holds library (.empty width) [] where
  added _ _ never := absurd never not_mem_nil
  shard _ _ never := absurd never not_mem_nil
  once _ := nodup_nil
  all _ never := absurd never not_mem_nil

theorem width_add (addition : Addition doubleText sha) :
    (library.add map addition).width = map.width := by
  unfold Library.add
  dsimp only
  split
  · rfl
  · rfl

variable {addition : Addition doubleText sha}

theorem Holds.keep (holds : Holds library map additions)
    (known : ∃ entry ∈ map.targets (library.hashName addition.1.target % map.width),
      targetKey entry.1 = targetKey addition.1) : Holds library map (additions ++ [addition]) where
  added part entry inside := mem_append_left _ (holds.added part entry inside)
  shard := holds.shard
  once := holds.once
  all other member := by
    cases mem_append.mp member with
    | inl old => exact holds.all other old
    | inr new => exact mem_singleton.mp new ▸ known

theorem Holds.put (holds : Holds library map additions)
    {home : Nat} (isHome : library.hashName addition.1.target % map.width = home)
    (fresh : ∀ entry ∈ map.targets home, targetKey entry.1 ≠ targetKey addition.1) : Holds library
      { map with targets := update map.targets home (map.targets home ++ [addition]) }
      (additions ++ [addition]) := by
  -- a shard is as before, or has one more entry
  have shards : ∀ part entry, entry ∈ update map.targets home
      (map.targets home ++ [addition]) part ↔
      entry ∈ map.targets part ∨ entry = addition ∧ part = home := by
    intro part entry
    by_cases here : part = home
    · subst here
      simp
    · simp [here]
  refine ⟨fun part entry inside => ?_, fun part entry inside => ?_, fun part => ?_,
    fun other member => ?_⟩
  · obtain old | ⟨rfl, -⟩ := (shards part entry).mp inside
    · exact mem_append_left _ (holds.added part entry old)
    · exact mem_append_right _ mem_cons_self
  · obtain old | ⟨rfl, rfl⟩ := (shards part entry).mp inside
    · exact holds.shard part entry old
    · exact isHome
  · dsimp only
    by_cases here : part = home
    · subst here
      rw [update_self, map_append, nodup_append]
      refine ⟨holds.once _, pairwise_singleton _ _, ?_⟩
      rintro key inside other new rfl
      obtain ⟨entry, member, same⟩ := mem_map.mp inside
      exact fresh entry member (same.trans (mem_singleton.mp new))
    · rw [update_of_ne here]
      exact holds.once part
  · cases mem_append.mp member with
    | inl old =>
      obtain ⟨entry, inside, same⟩ := holds.all other old
      exact ⟨entry, (shards _ entry).mpr (.inl inside), same⟩
    | inr new =>
      rw [mem_singleton.mp new]
      exact ⟨addition, (shards _ addition).mpr (.inr ⟨rfl, isHome⟩), rfl⟩

theorem Holds.add (holds : Holds library map additions) (addition : Addition doubleText sha) :
    Holds library (library.add map addition) (additions ++ [addition]) := by
  unfold Library.add
  dsimp only
  split
  · next known =>
    obtain ⟨entry, inside, same⟩ := List.any_eq_true.mp known
    exact holds.keep ⟨entry, inside, (identifies_target _ _).mp same⟩
  · next unknown =>
    refine holds.put rfl fun entry inside same => ?_
    exact unknown (List.any_eq_true.mpr ⟨entry, inside, (identifies_target _ _).mpr same⟩)

theorem holds_addAll (library : Library doubleText sha) (width : Nat)
    (additions : List (Addition doubleText sha)) :
    Holds library (library.addAll width additions) additions ∧
      (library.addAll width additions).width = width := by
  induction additions using List.reverseRecOn with
  | nil => exact ⟨holds_empty width, rfl⟩
  | append_singleton front addition ih =>
    have step : library.addAll width (front ++ [addition]) =
        library.add (library.addAll width front) addition := by
      rw [Library.addAll, foldl_append]
      rfl
    rw [step, width_add]
    exact ⟨ih.1.add addition, ih.2⟩

/-- The key of an entry and its result, which are all that matters of it. -/
def pairOf (entry : Addition doubleText sha) : TargetKey × AnalysedTarget doubleText sha :=
  (targetKey entry.1, entry.2)

theorem Holds.added_allEntries (holds : Holds library map additions) :
    ∀ entry ∈ library.allEntries map, entry ∈ additions := by
  intro entry inside
  obtain ⟨part, -, member⟩ := mem_flatMap.mp inside
  exact holds.added part entry ((library.entries_perm _).mem_iff.mp member)

theorem Holds.once_allEntries (holds : Holds library map additions) :
    ((library.allEntries map).map fun entry => targetKey entry.1).Nodup := by
  rw [Library.allEntries, map_flatMap, List.nodup_flatMap]
  refine ⟨fun part _ => ?_, List.nodup_range.imp fun {part other} different => ?_⟩
  · exact ((library.entries_perm _).map _).nodup_iff.mpr (holds.once part)
  · -- entries with the same key have the same name, and stand in the same shard
    intro key inside inside'
    obtain ⟨entry, member, rfl⟩ := mem_map.mp inside
    obtain ⟨entry', member', same⟩ := mem_map.mp inside'
    have names := (Prod.mk.inj (toLex_inj.mp same)).1
    have hashes := library.hashName_same _ _ ((identifies_entityName _ _).mpr names)
    have here := holds.shard part entry ((library.entries_perm _).mem_iff.mp member)
    have there := holds.shard other entry' ((library.entries_perm _).mem_iff.mp member')
    rw [hashes] at there
    exact different (here.symm.trans there)

theorem Holds.all_allEntries (holds : Holds library map additions) (some' : 0 < map.width) :
    ∀ addition ∈ additions, ∃ entry ∈ library.allEntries map,
      targetKey entry.1 = targetKey addition.1 := by
  intro addition inside
  obtain ⟨entry, member, same⟩ := holds.all addition inside
  have part := List.mem_range.mpr (Nat.mod_lt (library.hashName addition.1.target) some')
  have listed := (library.entries_perm _).mem_iff.mpr member
  exact ⟨entry, mem_flatMap.mpr ⟨_, part, listed⟩, same⟩

/-- Equal targets have equal results, and actions with the same identifier differ in their labels
only. -/
structure Consistent (additions : List (Addition doubleText sha)) : Prop where
  results : ∀ addition ∈ additions, ∀ other ∈ additions, addition.1.same other.1 = true →
    addition.2 = other.2
  actions : ∀ addition ∈ additions, ∀ action ∈ addition.2.actions, ∀ other ∈ additions,
    ∀ action' ∈ other.2.actions, action.action.id = action'.action.id →
    action.withLabel [] = action'.withLabel []

theorem Holds.pairs (holds : Holds library map additions) (some' : 0 < map.width)
    (consistent : Consistent additions) : ((library.allEntries map).map pairOf).Nodup ∧
      ∀ pair, pair ∈ (library.allEntries map).map pairOf ↔ pair ∈ additions.map pairOf := by
  constructor
  · refine Nodup.of_map fst ?_
    rw [map_map]
    exact holds.once_allEntries
  · intro pair
    constructor
    · intro inside
      obtain ⟨entry, member, rfl⟩ := mem_map.mp inside
      exact mem_map.mpr ⟨entry, holds.added_allEntries entry member, rfl⟩
    · intro inside
      obtain ⟨addition, member, rfl⟩ := mem_map.mp inside
      obtain ⟨entry, listed, same⟩ := holds.all_allEntries some' addition member
      have result := consistent.results entry (holds.added_allEntries entry listed) addition member
        ((identifies_target _ _).mpr same)
      exact mem_map.mpr ⟨entry, listed, Prod.ext same result⟩

/-! ## Origins -/

/-- The origins of an action in one target. -/
def originsIn (id : Str) (entry : Addition doubleText sha) : List (Origin doubleText sha) :=
  (entry.2.ids.zipIdx.filter fun place => place.1 = id).map fun place => (entry.1, place.2)

variable {id : Str}

theorem mem_originsIn {entry : Addition doubleText sha}
    {origin : Origin doubleText sha} : origin ∈ originsIn id entry ↔
      origin.1 = entry.1 ∧ entry.2.ids[origin.2]? = some id := by
  obtain ⟨target, pos⟩ := origin
  rw [originsIn, mem_map]
  constructor
  · rintro ⟨⟨other, pos'⟩, inside, same⟩
    obtain ⟨member, isId⟩ := mem_filter.mp inside
    cases same
    rw [List.mem_zipIdx_iff_getElem?.mp member, of_decide_eq_true isId]
    exact ⟨rfl, rfl⟩
  · rintro ⟨rfl, found⟩
    exact ⟨(id, pos), mem_filter.mpr ⟨List.mem_zipIdx_iff_getElem?.mpr found, by simp⟩, rfl⟩

theorem pushOrigins_eq (target : ConfiguredTarget doubleText sha) (id : Str) (ids : List Str)
    (pos : Nat) (origins : OriginMap doubleText sha) :
    pushOrigins target pos ids origins id = origins id ++
      ((ids.zipIdx pos).filter fun place => place.1 = id).map fun place => (target, place.2) := by
  induction ids generalizing pos origins with
  | nil => exact (append_nil _).symm
  | cons first rest ih =>
    rw [pushOrigins, ih, List.zipIdx_cons, filter_cons]
    by_cases here : first = id
    · subst here
      simp
    · simp [here, update_of_ne (Ne.symm here)]

theorem foldl_pushOrigins (id : Str) (entries : List (Addition doubleText sha))
    (origins : OriginMap doubleText sha) :
    entries.foldl (fun origins entry => pushOrigins entry.1 0 entry.2.ids origins) origins id =
      origins id ++ entries.flatMap (originsIn id) := by
  induction entries generalizing origins with
  | nil => exact (append_nil _).symm
  | cons entry rest ih =>
    rw [foldl_cons, ih, pushOrigins_eq, flatMap_cons, append_assoc]
    rfl

theorem foldl_collectShard (map : ResultTargetMap doubleText sha) (id : Str) (parts : List Nat) :
    ((parts.foldl (library.collectShard map) fun _ => []) id).Perm
      ((parts.flatMap fun part => library.entries (map.targets part)).flatMap (originsIn id)) := by
  induction parts using List.reverseRecOn with
  | nil => exact .nil
  | append_singleton front part ih =>
    rw [foldl_append, List.flatMap_append, List.flatMap_append]
    refine (library.sorting.perm compares_origin.strictWeak _).trans ?_
    rw [foldl_pushOrigins, List.flatMap_singleton]
    exact ih.append_right _

theorem Holds.once_origins (holds : Holds library map additions) (id : Str) :
    (((library.allEntries map).flatMap (originsIn id)).map originKey).Nodup := by
  rw [map_flatMap, List.nodup_flatMap]
  constructor
  · intro entry _
    have positions : ((originsIn id entry).map snd).Nodup := by
      rw [originsIn, map_map]
      refine Nodup.sublist (List.filter_sublist.map _) ?_
      rw [show (snd ∘ fun place : Str × Nat => (entry.1, place.2)) = snd from rfl,
        List.zipIdx_map_snd]
      exact List.nodup_range' 1 (by decide)
    rw [Nodup, pairwise_map] at positions ⊢
    exact positions.imp fun different same => different (Prod.mk.inj (toLex_inj.mp same)).2
  · have keys := pairwise_map.mp holds.once_allEntries
    refine keys.imp fun {entry other} different key inside inside' => ?_
    obtain ⟨origin, member, rfl⟩ := mem_map.mp inside
    obtain ⟨origin', member', same⟩ := mem_map.mp inside'
    have targets := (Prod.mk.inj (toLex_inj.mp same)).1
    rw [(mem_originsIn.mp member').1, (mem_originsIn.mp member).1] at targets
    exact different targets.symm

/-- What is listed for an action: its origins, each once and in order. -/
structure ListsOrigins (additions : List (Addition doubleText sha)) (id : Str)
    (origins : List (Origin doubleText sha)) : Prop where
  sorted : origins.Pairwise fun left right => lessOrigin left right = true
  mem_iff : ∀ target pos, (∃ origin ∈ origins, origin.1.same target = true ∧ origin.2 = pos) ↔
    ∃ addition ∈ additions, addition.1.same target = true ∧ addition.2.ids[pos]? = some id

theorem Holds.lists_originMap (holds : Holds library map additions) (some' : 0 < map.width)
    (consistent : Consistent additions) (id : Str) :
    ListsOrigins additions id (library.originMap map id) := by
  have perm := @foldl_collectShard _ _ library map id (List.range map.width)
  constructor
  · have once := (perm.map originKey).nodup_iff.mpr (holds.once_origins id)
    obtain ⟨less, shape⟩ : ∃ less, map.width = less + 1 := ⟨map.width - 1, by omega⟩
    have last : ∃ list, library.originMap map id = library.sorting.sort lessOrigin list := by
      rw [Library.originMap, shape, List.range_succ, foldl_append]
      exact ⟨_, rfl⟩
    obtain ⟨list, isSorted⟩ := last
    have same : (library.sorting.sort lessOrigin list).Perm list :=
      library.sorting.perm compares_origin.strictWeak list
    have distinct : (list.map originKey).Nodup := by
      rw [← (same.map originKey).nodup_iff, ← isSorted]
      exact once
    rw [isSorted]
    exact (library.sorting.ascends compares_origin distinct).imp fun {left right} less =>
      (compares_origin left right).mpr less
  · intro target pos
    constructor
    · rintro ⟨origin, inside, same, rfl⟩
      obtain ⟨entry, member, listed⟩ := mem_flatMap.mp (perm.mem_iff.mp inside)
      obtain ⟨isTarget, found⟩ := mem_originsIn.mp listed
      exact ⟨entry, holds.added_allEntries entry member, isTarget ▸ same, found⟩
    · rintro ⟨addition, inside, same, found⟩
      obtain ⟨entry, member, sameKey⟩ := holds.all_allEntries some' addition inside
      have result := consistent.results entry (holds.added_allEntries entry member) addition inside
        ((identifies_target _ _).mpr sameKey)
      have listed : (entry.1, pos) ∈ originsIn id entry := mem_originsIn.mpr ⟨rfl, result ▸ found⟩
      refine ⟨(entry.1, pos), perm.mem_iff.mpr (mem_flatMap.mpr ⟨entry, member, listed⟩), ?_, rfl⟩
      rw [identifies_target] at same ⊢
      exact sameKey.trans same

/-! ## Objects by their identifiers -/

theorem objectsToJson_eq {Object : Type} {id : Object → Str} {toJson : Object → JsonValue}
    {objects : List Object} (ascends : Ascends id objects) :
    objectsToJson id toJson objects = objects.map fun object => (id object, toJson object) := by
  have fold : objectsToJson id toJson objects =
      (objects.map fun object => (id object, toJson object)).foldl
        (fun result entry => insert entry.1 entry.2 result) [] := by
    rw [objectsToJson, List.foldl_map]
  have ordered : Ascending ([] ++ objects.map fun object => (id object, toJson object)) :=
    pairwise_map.mpr ascends
  rw [fold, foldl_insert_ascending ordered, nil_append]

theorem sortObjects_spec (library : Library doubleText sha) {Object : Type} (id : Object → Str)
    (objects : List Object) : Ascends id (library.sortObjects id objects) ∧
      (∀ object ∈ library.sortObjects id objects, object ∈ objects) ∧
      ∀ name, name ∈ (library.sortObjects id objects).map id ↔ name ∈ objects.map id :=
  library.sorting.unique_spec (compares_id id) (identifies_id id) objects

/-- What a list of objects by their identifiers lists: each of some objects once, with its JSON. -/
structure Lists {Object : Type} (id : Object → Str) (occurs : Object → Prop)
    (written : Object → JsonValue → Prop) (fields : List (Str × JsonValue)) : Prop where
  ascending : Ascending fields
  complete : ∀ object, occurs object → ∃ json, (id object, json) ∈ fields
  sound : ∀ field ∈ fields, ∃ object, occurs object ∧ id object = field.1 ∧ written object field.2

theorem lists_sortObjects {Object Listed : Type} {id : Object → Str} {listedId : Listed → Str}
    {toJson : Listed → JsonValue} {objects : List Listed} {occurs : Object → Prop}
    {written : Object → JsonValue → Prop}
    (complete : ∀ object, occurs object → ∃ other ∈ objects, listedId other = id object)
    (sound : ∀ listed ∈ objects, ∃ object, occurs object ∧ id object = listedId listed ∧
      written object (toJson listed)) :
    Lists id occurs written (objectsToJson listedId toJson (library.sortObjects listedId objects)) := by
  obtain ⟨ascends, inside, keys⟩ := sortObjects_spec library listedId objects
  rw [objectsToJson_eq ascends]
  refine ⟨pairwise_map.mpr ascends, fun object occurs => ?_, fun field member => ?_⟩
  · obtain ⟨other, member, same⟩ := complete object occurs
    have listed := (keys (id object)).mpr (mem_map.mpr ⟨other, member, same⟩)
    obtain ⟨kept, isKept, sameId⟩ := mem_map.mp listed
    exact ⟨toJson kept, mem_map.mpr ⟨kept, isKept, by rw [sameId]⟩⟩
  · obtain ⟨kept, isKept, rfl⟩ := mem_map.mp member
    exact sound kept (inside kept isKept)

theorem shown_sortObjects {Object : Type} {id : Object → Str} {toJson toJson' : Object → JsonValue}
    {library' : Library doubleText sha} {objects objects' : List Object}
    (sameIds : ∀ name, name ∈ objects.map id ↔ name ∈ objects'.map id)
    (agree : ∀ object ∈ objects, ∀ object' ∈ objects', id object = id object' →
      Json.shown (numberText doubleText) (toJson object) =
        Json.shown (numberText doubleText) (toJson' object')) :
    Json.shownFields (numberText doubleText)
        (objectsToJson id toJson (library.sortObjects id objects)) =
      Json.shownFields (numberText doubleText)
        (objectsToJson id toJson' (library'.sortObjects id objects')) := by
  obtain ⟨ascends, inside, keys⟩ := sortObjects_spec library id objects
  obtain ⟨ascends', inside', keys'⟩ := sortObjects_spec library' id objects'
  rw [objectsToJson_eq ascends, objectsToJson_eq ascends', shownFields_eq_map, shownFields_eq_map,
    map_map, map_map]
  have sameKeys := ascends.keys_eq ascends' fun name =>
    (keys name).trans ((sameIds name).trans (keys' name).symm)
  refine map_eq_of_keys sameKeys fun object member object' member' same => ?_
  have shows := agree object (inside object member) object' (inside' object' member') same
  rw [comp_apply, comp_apply, same, shows]

theorem computeId_tree {tree : ActionGraph.Tree}
    (made : ActionGraph.Tree.ofInputs doubleText sha tree.inputs = some tree) :
    ActionGraph.computeId doubleText sha "TREE:" tree.toJson = some tree.id := by
  obtain ⟨id, identified, isTree⟩ := map_eq_some_iff.mp made
  exact identified.trans (congrArg (fun made => some (ActionGraph.Tree.id made)) isTree)

theorem computeId_overlay {overlay : ActionGraph.TreeOverlay}
    (made : ActionGraph.TreeOverlay.ofTrees doubleText sha overlay.trees overlay.disjoint =
      some overlay) :
    ActionGraph.computeId doubleText sha "TREE_OVERLAY:" overlay.toJson = some overlay.id := by
  obtain ⟨id, identified, isOverlay⟩ := map_eq_some_iff.mp made
  exact identified.trans (congrArg (fun made => some (ActionGraph.TreeOverlay.id made)) isOverlay)

theorem shown_of_computeId (collisionFree : CollisionFree sha) (doubles : IsDoubleText doubleText)
    {mark : String} {json json' : JsonValue}
    (identified : ActionGraph.computeId doubleText sha mark json = some id)
    (identified' : ActionGraph.computeId doubleText sha mark json' = some id) :
    Json.shown (numberText doubleText) json = Json.shown (numberText doubleText) json' := by
  obtain ⟨text, dumped, rfl⟩ := map_eq_some_iff.mp identified
  obtain ⟨text', dumped', same⟩ := map_eq_some_iff.mp identified'
  have texts := collisionFree _ _ [] [] (congrArg (· ++ []) (toHexString_injective same))
  rw [append_cancel_left texts] at dumped'
  exact Json.dump_inj (isNumberText doubles) dumped dumped'

/-! ## What is shown -/

theorem shown_ptr (collisionFree : CollisionFree sha) (doubles : IsDoubleText doubleText)
    {left right : ExpressionPtr doubleText sha} (same : left.hash = right.hash) :
    Json.shown (numberText doubleText) left.toJson =
      Json.shown (numberText doubleText) right.toJson := by
  have shows := sameJson_of_toHash collisionFree doubles left.expr right.expr left.hashed
    (same ▸ right.hashed) .serializeAll
  unfold SameJson at shows
  rw [ptr_toJson, ptr_toJson] at shows
  exact some.inj shows

theorem toJson_of_entityKey {left right : EntityName doubleText sha}
    (same : entityKey left = entityKey right) : left.toJson = right.toJson := by
  cases left with
  | named name =>
    cases right with
    | named other =>
      have names := nameKey_inj.mp (Sum.inl.inj (toLex_inj.mp same))
      rw [names]
    | anonymous other => cases toLex_inj.mp same
  | anonymous target =>
    cases right with
    | named other => cases toLex_inj.mp same
    | anonymous other =>
      have hashes := Prod.mk.inj (toLex_inj.mp (Sum.inr.inj (toLex_inj.mp same)))
      simp only [EntityName.toJson, ExpressionPtr.toIdentifier, hashes.1, hashes.2]

theorem shown_originsToJson (collisionFree : CollisionFree sha) (doubles : IsDoubleText doubleText)
    {additions' : List (Addition doubleText sha)}
    (same : ∀ addition, addition ∈ additions ↔ addition ∈ additions')
    {origins origins' : List (Origin doubleText sha)} (lists : ListsOrigins additions id origins)
    (lists' : ListsOrigins additions' id origins') :
    Json.shown (numberText doubleText) (originsToJson origins) =
      Json.shown (numberText doubleText) (originsToJson origins') := by
  have ascends : Ascends originKey origins :=
    lists.sorted.imp fun {left right} => (compares_origin left right).mp
  have ascends' : Ascends originKey origins' :=
    lists'.sorted.imp fun {left right} => (compares_origin left right).mp
  -- an origin in one list has its key in the other
  have transfers : ∀ {front back : List (Origin doubleText sha)}
      {there : List (Addition doubleText sha)} {here : List (Addition doubleText sha)},
      ListsOrigins here id front → ListsOrigins there id back → (∀ addition, addition ∈ here →
        addition ∈ there) → ∀ key ∈ front.map originKey, key ∈ back.map originKey := by
    intro front back there here listed listed' moves key inside
    obtain ⟨origin, member, rfl⟩ := mem_map.mp inside
    have itself := (identifies_target origin.1 origin.1).mpr rfl
    obtain ⟨addition, added, isTarget, found⟩ :=
      (listed.mem_iff origin.1 origin.2).mp ⟨origin, member, itself, rfl⟩
    obtain ⟨other, member', sameTarget, samePos⟩ :=
      (listed'.mem_iff origin.1 origin.2).mpr ⟨addition, moves addition added, isTarget, found⟩
    have keys := (identifies_target other.1 origin.1).mp sameTarget
    exact mem_map.mpr ⟨other, member', by rw [originKey, originKey, keys, samePos]⟩
  have sameKeys := ascends.keys_eq ascends' fun key =>
    ⟨transfers lists lists' (fun addition => (same addition).mp) key,
      transfers lists' lists (fun addition => (same addition).mpr) key⟩
  simp only [originsToJson, Json.shown, shownItems_eq_map, map_map, Json.array.injEq]
  refine map_eq_of_keys sameKeys fun origin _ other _ sameKey => ?_
  obtain ⟨targets, positions⟩ := Prod.mk.inj (toLex_inj.mp sameKey)
  obtain ⟨names, configs⟩ := Prod.mk.inj (toLex_inj.mp targets)
  obtain ⟨target, count⟩ := origin
  obtain ⟨target', count'⟩ := other
  have count_eq : count = count' := positions
  simp only [comp_apply, Json.shown, Json.shownFields, count_eq,
    shown_ptr collisionFree doubles configs, toJson_of_entityKey names]

theorem shownFields_insert (key : Str) (value : JsonValue) (entries : List (Str × JsonValue)) :
    Json.shownFields (numberText doubleText) (SortedMap.insert key value entries) =
      SortedMap.insert key (Json.shown (numberText doubleText) value)
        (Json.shownFields (numberText doubleText) entries) := by
  induction entries with
  | nil => rfl
  | cons entry rest ih =>
    obtain ⟨name, stored⟩ := entry
    rw [SortedMap.insert, Json.shownFields, SortedMap.insert]
    split
    · rfl
    · split
      · rfl
      · rw [Json.shownFields, ih]

variable {includeOrigins : Bool}

theorem shown_action {action action' : ActionWithOrigin}
    (descriptions : action.desc.withLabel [] = action'.desc.withLabel [])
    (origins : Json.shown (numberText doubleText) action.origin =
      Json.shown (numberText doubleText) action'.origin) :
    Json.shown (numberText doubleText) (action.toJson includeOrigins) =
      Json.shown (numberText doubleText) (action'.toJson includeOrigins) := by
  have unlabelled : ∀ desc : ActionDescription, desc.toFields = (desc.withLabel []).toFields :=
    fun _ => rfl
  have fields : action.desc.toFields = action'.desc.toFields := by
    rw [unlabelled, descriptions, ← unlabelled]
  unfold ActionWithOrigin.toJson
  cases includeOrigins with
  | false => rw [if_neg false_ne_true, if_neg false_ne_true, ActionDescription.toJson,
      ActionDescription.toJson, fields]
  | true => rw [if_pos rfl, if_pos rfl, Json.shown, Json.shown, shownFields_insert,
      shownFields_insert, fields, origins]

theorem shown_result {result result' : ResultType}
    (actions : Json.shownFields (numberText doubleText) (objectsToJson
        (fun action => action.desc.action.id) (ActionWithOrigin.toJson includeOrigins)
        result.actions) = Json.shownFields (numberText doubleText) (objectsToJson
        (fun action => action.desc.action.id) (ActionWithOrigin.toJson includeOrigins)
        result'.actions)) (blobs : result.blobs = result'.blobs)
    (trees : Json.shownFields (numberText doubleText)
        (objectsToJson ActionGraph.Tree.id ActionGraph.Tree.toJson result.trees) =
      Json.shownFields (numberText doubleText)
        (objectsToJson ActionGraph.Tree.id ActionGraph.Tree.toJson result'.trees))
    (overlays : Json.shownFields (numberText doubleText)
        (objectsToJson ActionGraph.TreeOverlay.id ActionGraph.TreeOverlay.toJson
          result.treeOverlays) = Json.shownFields (numberText doubleText)
        (objectsToJson ActionGraph.TreeOverlay.id ActionGraph.TreeOverlay.toJson
          result'.treeOverlays)) :
    Json.shown (numberText doubleText) (result.toJson includeOrigins) =
      Json.shown (numberText doubleText) (result'.toJson includeOrigins) := by
  have empties : ∀ fields : List (Str × JsonValue),
      (Json.shownFields (numberText doubleText) fields).isEmpty = fields.isEmpty := by
    intro fields
    rw [shownFields_eq_map]
    cases fields <;> rfl
  have empty := congrArg List.isEmpty overlays
  rw [empties, empties] at empty
  unfold ResultType.toJson
  dsimp only
  rw [Json.shown, Json.shown, blobs, empty]
  split
  · simp only [Json.shownFields, Json.shown, actions, trees]
  · rw [shownFields_insert, shownFields_insert]
    simp only [Json.shownFields, Json.shown, actions, trees, overlays]

theorem Holds.mem_parts (holds : Holds library map additions) (some' : 0 < map.width)
    (consistent : Consistent additions) {Part : Type} (part : AnalysedTarget doubleText sha → List Part)
    (object : Part) : object ∈ ((library.allEntries map).flatMap fun entry => part entry.2) ↔
      ∃ addition ∈ additions, object ∈ part addition.2 := by
  have pairs := (holds.pairs some' consistent).2
  rw [mem_flatMap]
  constructor
  · rintro ⟨entry, listed, inside⟩
    exact ⟨entry, holds.added_allEntries entry listed, inside⟩
  · rintro ⟨addition, added, inside⟩
    obtain ⟨entry, listed, same⟩ :=
      mem_map.mp ((pairs (pairOf addition)).mpr (mem_map.mpr ⟨addition, added, rfl⟩))
    have result : entry.2 = addition.2 := (Prod.mk.inj same).2
    exact ⟨entry, listed, result ▸ inside⟩

theorem Holds.mem_actions (holds : Holds library map additions) (some' : 0 < map.width)
    (consistent : Consistent additions) (action : ActionWithOrigin) :
    action ∈ ((library.allEntries map).flatMap fun entry => entry.2.actions.map fun action =>
        (⟨action, originsToJson (library.originMap map action.action.id)⟩ : ActionWithOrigin)) ↔
      (∃ addition ∈ additions, action.desc ∈ addition.2.actions) ∧
        action.origin = originsToJson (library.originMap map action.desc.action.id) := by
  obtain ⟨desc, origin⟩ := action
  have inside := holds.mem_parts some' consistent (fun result => result.actions.map fun action =>
    (⟨action, originsToJson (library.originMap map action.action.id)⟩ : ActionWithOrigin))
    ⟨desc, origin⟩
  rw [inside]
  constructor
  · rintro ⟨addition, added, member⟩
    obtain ⟨action, listed, same⟩ := mem_map.mp member
    cases same
    exact ⟨⟨addition, added, listed⟩, rfl⟩
  · rintro ⟨⟨addition, added, listed⟩, same⟩
    have same : origin = originsToJson (library.originMap map desc.action.id) := same
    exact ⟨addition, added, mem_map.mpr ⟨desc, listed, by rw [same]⟩⟩

/-! ## The result -/

/-- The JSON lists every action with exactly its origins in a fixed order, every tree, every overlay
and every blob of some additions, each once. -/
structure ListsAdditions (additions : List (Addition doubleText sha)) (includeOrigins : Bool)
    (json : JsonValue) : Prop where
  actions : ∃ fields, jsonField json "actions" = some (.object fields) ∧
    Lists (fun action : ActionDescription => action.action.id)
      (fun action => ∃ addition ∈ additions, action ∈ addition.2.actions)
      (fun action json => ∃ origins, ListsOrigins additions action.action.id origins ∧
        json = ActionWithOrigin.toJson includeOrigins ⟨action, originsToJson origins⟩) fields
  blobs : ∃ blobs : List Str, jsonField json "blobs" = some (ActionGraph.stringsToJson blobs) ∧
    blobs.Pairwise (· < ·) ∧ ∀ blob, blob ∈ blobs ↔ ∃ addition ∈ additions, blob ∈ addition.2.blobs
  trees : ∃ fields, jsonField json "trees" = some (.object fields) ∧
    Lists ActionGraph.Tree.id (fun tree => ∃ addition ∈ additions, tree ∈ addition.2.trees)
      (fun tree json => json = tree.toJson) fields
  treeOverlays : ∃ fields, (jsonField json "tree_overlays").getD (.object []) = .object fields ∧
    Lists ActionGraph.TreeOverlay.id
      (fun overlay => ∃ addition ∈ additions, overlay ∈ addition.2.treeOverlays)
      (fun overlay json => json = overlay.toJson) fields

theorem jsonField_result (includeOrigins : Bool) (result : ResultType) :
    jsonField (result.toJson includeOrigins) "actions" = some (.object (objectsToJson
      (fun action => action.desc.action.id) (ActionWithOrigin.toJson includeOrigins)
      result.actions)) ∧ jsonField (result.toJson includeOrigins) "blobs" =
      some (ActionGraph.stringsToJson result.blobs) ∧
    jsonField (result.toJson includeOrigins) "trees" =
      some (.object (objectsToJson ActionGraph.Tree.id ActionGraph.Tree.toJson result.trees)) ∧
    (jsonField (result.toJson includeOrigins) "tree_overlays").getD (.object []) =
      .object (objectsToJson ActionGraph.TreeOverlay.id ActionGraph.TreeOverlay.toJson
        result.treeOverlays) := by
  have apart : lit "tree_overlays" ≠ lit "actions" ∧ lit "tree_overlays" ≠ lit "blobs" ∧
      lit "tree_overlays" ≠ lit "trees" := by decide
  unfold ResultType.toJson jsonField
  dsimp only
  split
  · next empty =>
    rw [List.isEmpty_iff.mp empty]
    exact ⟨rfl, rfl, rfl, rfl⟩
  · rw [find_insert, find_insert, find_insert, find_insert, if_neg apart.1, if_neg apart.2.1,
      if_neg apart.2.2, if_pos rfl]
    exact ⟨rfl, rfl, rfl, rfl⟩

theorem lists_toJson (library : Library doubleText sha) {width : Nat} (some' : 0 < width)
    (consistent : Consistent additions) (includeOrigins : Bool) :
    ListsAdditions additions includeOrigins
      (library.toJson includeOrigins (library.addAll width additions)) := by
  obtain ⟨holds, isWidth⟩ := holds_addAll library width additions
  generalize library.addAll width additions = map at holds isWidth ⊢
  subst isWidth
  obtain ⟨actions, blobs, trees, overlays⟩ := jsonField_result includeOrigins (library.toResult map)
  refine ⟨⟨_, actions, ?_⟩, ⟨_, blobs, ?_⟩, ⟨_, trees, ?_⟩, ⟨_, overlays, ?_⟩⟩
  · refine lists_sortObjects (fun action occurs => ?_) fun action inside => ?_
    · exact ⟨_, (holds.mem_actions some' consistent
        ⟨action, originsToJson (library.originMap map action.action.id)⟩).mpr ⟨occurs, rfl⟩, rfl⟩
    · obtain ⟨occurs, isOrigin⟩ := (holds.mem_actions some' consistent action).mp inside
      obtain ⟨desc, origin⟩ := action
      exact ⟨desc, occurs, rfl, _, holds.lists_originMap some' consistent desc.action.id,
        congrArg (fun origin => ActionWithOrigin.toJson includeOrigins ⟨desc, origin⟩) isOrigin⟩
  · obtain ⟨ascends, -, keys⟩ := sortObjects_spec library id
      ((library.allEntries map).flatMap fun entry => entry.2.blobs)
    refine ⟨ascends, fun blob => ?_⟩
    have isBlob := keys blob
    rw [map_id, map_id, holds.mem_parts some' consistent] at isBlob
    exact isBlob
  · refine lists_sortObjects (fun tree occurs => ?_) fun tree inside => ?_
    · exact ⟨tree, (holds.mem_parts some' consistent _ tree).mpr occurs, rfl⟩
    · exact ⟨tree, (holds.mem_parts some' consistent _ tree).mp inside, rfl, rfl⟩
  · refine lists_sortObjects (fun overlay occurs => ?_) fun overlay inside => ?_
    · exact ⟨overlay, (holds.mem_parts some' consistent _ overlay).mpr occurs, rfl⟩
    · exact ⟨overlay, (holds.mem_parts some' consistent _ overlay).mp inside, rfl, rfl⟩

/-- Whatever the order of the same additions, the number of shards and what the standard library
leaves open, the JSON of the result map shows the same, and it lists all additions. -/
theorem result_map_listed (collisionFree : CollisionFree sha) (doubles : IsDoubleText doubleText)
    {additions additions' : List (Addition doubleText sha)}
    (same : ∀ addition, addition ∈ additions ↔ addition ∈ additions')
    (consistent : Consistent additions) (library library' : Library doubleText sha)
    {width width' : Nat} (some' : 0 < width) (some'' : 0 < width') (includeOrigins : Bool) :
    Json.shown (numberText doubleText)
        (library.toJson includeOrigins (library.addAll width additions)) =
      Json.shown (numberText doubleText)
        (library'.toJson includeOrigins (library'.addAll width' additions')) ∧
    ListsAdditions additions includeOrigins
      (library.toJson includeOrigins (library.addAll width additions)) := by
  refine ⟨?_, lists_toJson library some' consistent includeOrigins⟩
  have consistent' : Consistent additions' := by
    constructor
    · intro addition inside other inside' equal
      exact consistent.results addition ((same _).mpr inside) other ((same _).mpr inside') equal
    · intro addition inside action member other inside' action' member' equal
      exact consistent.actions addition ((same _).mpr inside) action member other
        ((same _).mpr inside') action' member' equal
  obtain ⟨holds, isWidth⟩ := holds_addAll library width additions
  obtain ⟨holds', isWidth'⟩ := holds_addAll library' width' additions'
  generalize library.addAll width additions = map at holds isWidth ⊢
  generalize library'.addAll width' additions' = map' at holds' isWidth' ⊢
  subst isWidth isWidth'
  -- a part of a target is listed in both or in none
  have parts : ∀ {Part : Type} (part : AnalysedTarget doubleText sha → List Part) (object : Part),
      object ∈ ((library.allEntries map).flatMap fun entry => part entry.2) ↔
        object ∈ ((library'.allEntries map').flatMap fun entry => part entry.2) := by
    intro Part part object
    rw [holds.mem_parts some' consistent, holds'.mem_parts some'' consistent']
    exact exists_congr fun addition => and_congr_left fun _ => same addition
  have keys : ∀ {Part : Type} (part : AnalysedTarget doubleText sha → List Part) (id : Part → Str)
      (name : Str), name ∈ ((library.allEntries map).flatMap fun entry => part entry.2).map id ↔
        name ∈ ((library'.allEntries map').flatMap fun entry => part entry.2).map id := by
    intro Part part id name
    simp only [mem_map, parts]
  apply shown_result
  · apply shown_sortObjects
    · intro name
      have listed := keys AnalysedTarget.actions (fun action => action.action.id) name
      simpa only [map_flatMap, map_map, comp_def] using listed
    · intro action inside action' inside' sameId
      obtain ⟨⟨addition, added, member⟩, isOrigin⟩ :=
        (holds.mem_actions some' consistent action).mp inside
      obtain ⟨⟨addition', added', member'⟩, isOrigin'⟩ :=
        (holds'.mem_actions some'' consistent' action').mp inside'
      refine shown_action (consistent.actions addition added _ member addition'
        ((same _).mpr added') _ member' sameId) ?_
      rw [isOrigin, isOrigin', sameId]
      exact shown_originsToJson collisionFree doubles same
        (holds.lists_originMap some' consistent _) (holds'.lists_originMap some'' consistent' _)
  · obtain ⟨ascends, -, listed⟩ := sortObjects_spec library id
      ((library.allEntries map).flatMap fun entry => entry.2.blobs)
    obtain ⟨ascends', -, listed'⟩ := sortObjects_spec library' id
      ((library'.allEntries map').flatMap fun entry => entry.2.blobs)
    have equal := ascends.keys_eq ascends' fun name =>
      (listed name).trans ((keys AnalysedTarget.blobs id name).trans (listed' name).symm)
    rw [map_id, map_id] at equal
    exact equal
  · refine shown_sortObjects (keys AnalysedTarget.trees ActionGraph.Tree.id) ?_
    intro tree inside tree' inside' sameId
    obtain ⟨addition, -, member⟩ := (holds.mem_parts some' consistent _ tree).mp inside
    obtain ⟨addition', -, member'⟩ := (holds'.mem_parts some'' consistent' _ tree').mp inside'
    have identified := computeId_tree (addition.2.treesMade tree member)
    have identified' := computeId_tree (addition'.2.treesMade tree' member')
    exact shown_of_computeId collisionFree doubles identified (sameId ▸ identified')
  · refine shown_sortObjects (keys AnalysedTarget.treeOverlays ActionGraph.TreeOverlay.id) ?_
    intro overlay inside overlay' inside' sameId
    obtain ⟨addition, -, member⟩ := (holds.mem_parts some' consistent _ overlay).mp inside
    obtain ⟨addition', -, member'⟩ := (holds'.mem_parts some'' consistent' _ overlay').mp inside'
    have identified := computeId_overlay (addition.2.overlaysMade overlay member)
    have identified' := computeId_overlay (addition'.2.overlaysMade overlay' member')
    exact shown_of_computeId collisionFree doubles identified (sameId ▸ identified')

/-! ## An example -/

/-- The hash function of the example. -/
abbrev code : Str → Str := digestsOf []

/-- A library that lists entries as they were added, or the other way around. -/
def listing (backwards : Bool) : Library bitsText code where
  hashName
    | .named name => name.name.length
    | .anonymous _ => 0
  hashName_same name other same := by
    cases name with
    | named name =>
      cases other with
      | named other =>
        have equal : name = other := of_decide_eq_true same
        rw [equal]
      | anonymous other => cases same
    | anonymous target =>
      cases other with
      | named other => cases same
      | anonymous other => rfl
  entries shard := if backwards then shard.reverse else shard
  entries_perm shard := by
    cases backwards with
    | false => exact .refl _
    | true => exact shard.reverse_perm
  sorting := insertionSorter

/-- A target without configuration. -/
def plainTarget (name : String) : ConfiguredTarget bitsText code where
  target := .named ⟨lit "", lit "", lit name, .target⟩
  config := ⟨.map [], _, rfl⟩

/-- An action with a label. -/
def labelled (label : String) : ActionDescription where
  outputFiles := [lit "out"]
  outputDirs := []
  action :=
    { id := lit "id", command := [lit "true"], label := lit label, cwd := [], env := [],
      mayFail := none, noCache := false, timeoutScale := .ofNat 1, executionProperties := [] }
  inputs := []

/-- A target with one action and one blob. -/
def oneAction (label : String) : AnalysedTarget bitsText code where
  actions := [labelled label]
  blobs := [lit "blob"]
  trees := []
  treeOverlays := []
  treesMade _ never := absurd never not_mem_nil
  overlaysMade _ never := absurd never not_mem_nil

/-- Two targets that share an action. -/
def sharing : List (Addition bitsText code) :=
  [(plainTarget "a", oneAction "first"), (plainTarget "bb", oneAction "second")]

theorem result_map_listed_sharing :
    Json.shown (numberText bitsText)
        ((listing false).toJson true ((listing false).addAll 1 sharing)) =
      Json.shown (numberText bitsText)
        ((listing true).toJson true ((listing true).addAll 5 sharing.reverse)) ∧
    ListsAdditions sharing true ((listing false).toJson true ((listing false).addAll 1 sharing)) := by
  refine result_map_listed (digestsOf_collisionFree (by decide)) bitsText_isDoubleText
    (fun addition => List.mem_reverse.symm) ⟨fun addition inside other inside' same => ?_,
      fun addition inside action member other inside' action' member' _ => ?_⟩
    (listing false) (listing true) (by decide) (by decide) true
  · have apart : (plainTarget "a").same (plainTarget "bb") = false ∧
        (plainTarget "bb").same (plainTarget "a") = false := by decide
    simp only [sharing, mem_cons, not_mem_nil, or_false] at inside inside'
    obtain rfl | rfl := inside
    · obtain rfl | rfl := inside'
      · rfl
      · exact absurd (apart.1.symm.trans same) false_ne_true
    · obtain rfl | rfl := inside'
      · exact absurd (apart.2.symm.trans same) false_ne_true
      · rfl
  · simp only [sharing, mem_cons, not_mem_nil, or_false] at inside inside'
    obtain rfl | rfl := inside <;> obtain rfl | rfl := inside' <;>
      rw [mem_singleton.mp member, mem_singleton.mp member'] <;> rfl

end Jst.Verif.ResultMaps
