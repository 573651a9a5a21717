import Jst.Expression.Evaluator
import Mathlib.Data.List.Induction
/-!
# Unions of maps

A union by halves is the fold over the maps in which later values win, however the list is split. A
disjoint union fails just if two maps give different values to one key.
-/
namespace Jst.Verif.MapUnions

open Expression Evaluator SortedMap Functions

/-- A map, which has its keys in order. -/
abbrev Dict := { entries : List (Str × Value) // Ascending entries }

/-- The fold in which later values win. -/
def folded (maps : List Dict) : List (Str × Value) :=
  maps.foldl (fun result map => SortedMap.union map.1 result) []

/-- One of the maps gives a value to a key. -/
def Gives (maps : List Dict) (key : Str) (value : Value) : Prop :=
  ∃ map ∈ maps, find key map.1 = some value

/-- No two maps give different values to one key. -/
def Agree (maps : List Dict) : Prop :=
  ∀ key value other, Gives maps key value → Gives maps key other → value.equal other

theorem folded_concat (maps : List Dict) (map : Dict) :
    folded (maps ++ [map]) = SortedMap.union map.1 (folded maps) := by
  simp [folded]

theorem folded_ascending (maps : List Dict) : Ascending (folded maps) := by
  induction maps using List.reverseRecOn with
  | nil => exact .nil
  | append_singleton maps map step => exact folded_concat maps map ▸ union_ascending _ step

theorem find_folded (key : Str) (maps : List Dict) :
    find key (folded maps) = maps.reverse.findSome? fun map => find key map.1 := by
  induction maps using List.reverseRecOn with
  | nil => rfl
  | append_singleton maps map step =>
    rw [folded_concat, find_union, step, List.reverse_concat, List.findSome?_cons]
    cases find key map.1 <;> rfl

theorem folded_append (front back : List Dict) :
    folded (front ++ back) = SortedMap.union (folded back) (folded front) := by
  refine ext_find (folded_ascending _) (union_ascending _ (folded_ascending _)) fun key => ?_
  rw [find_union, find_folded, find_folded, find_folded, reverse_append, List.findSome?_append]

variable {key : Str} {value : Value}

theorem gives_of_find {maps : List Dict}
    (found : find key (folded maps) = some value) : Gives maps key value := by
  rw [find_folded] at found
  obtain ⟨map, member, found⟩ := List.exists_of_findSome?_eq_some found
  exact ⟨map, List.mem_reverse.mp member, found⟩

theorem find_of_gives {maps : List Dict} (agree : Agree maps) (gives : Gives maps key value) :
    ∃ other, find key (folded maps) = some other ∧ value.equal other := by
  obtain ⟨map, member, found⟩ := gives
  have some : (find key (folded maps)).isSome := by
    rw [find_folded, List.findSome?_isSome_iff]
    exact ⟨map, List.mem_reverse.mpr member, by rw [found]; rfl⟩
  obtain ⟨other, last⟩ := isSome_iff_exists.mp some
  exact ⟨other, last, agree key value other ⟨map, member, found⟩ (gives_of_find last)⟩

variable {back front : List Dict}

theorem gives_append :
    Gives (front ++ back) key value ↔ Gives front key value ∨ Gives back key value := by
  simp [Gives, or_and_right, exists_or]

theorem conflicting_eq_false (agree : Agree front) (agree' : Agree back) :
    conflicting (folded front) (folded back) = false ↔ Agree (front ++ back) := by
  simp only [conflicting, List.any_eq_false, Prod.forall, mem_iff_find (folded_ascending _)]
  constructor
  · intro none
    have across : ∀ key value other, Gives front key value → Gives back key other →
        value.toHash = other.toHash := by
      intro key value other gives gives'
      obtain ⟨left, found, same⟩ := find_of_gives agree gives
      obtain ⟨right, found', same'⟩ := find_of_gives agree' gives'
      have middle := none key left found
      simp only [found', Value.equal, decide_eq_true_eq, Bool.not_eq_true', decide_eq_false_iff_not,
        not_not] at same same' middle
      exact same.trans (middle.trans same'.symm)
    intro key value other gives gives'
    cases gives_append.mp gives with
    | inl left =>
      cases gives_append.mp gives' with
      | inl left' => exact agree key value other left left'
      | inr right => simpa [Value.equal] using across key value other left right
    | inr right =>
      cases gives_append.mp gives' with
      | inl left => simpa [Value.equal] using (across key other value left right).symm
      | inr right' => exact agree' key value other right right'
  · intro all key value found
    cases found' : find key (folded back) with
    | none => simp
    | some other =>
      simp [all key value other (gives_append.mpr (.inl (gives_of_find found)))
        (gives_append.mpr (.inr (gives_of_find found')))]

/-- A step of a union, for any two halves. -/
def unite (disjoint : Bool) (left right : List (Str × Value)) : Option (List (Str × Value)) := do
  if left.isEmpty then return right
  if right.isEmpty then return left
  if disjoint && conflicting left right then none
  return SortedMap.union right left

theorem unite_eq (disjoint : Bool) {left right : List (Str × Value)} (ordered : Ascending right) :
    unite disjoint left right =
      if disjoint && conflicting left right then none else some (SortedMap.union right left) := by
  have empty : SortedMap.union right [] = right :=
    ext_find (union_ascending _ .nil) ordered fun key => by simp
  cases left with
  | nil => simp [unite, conflicting, empty]
  | cons first left =>
    cases right with
    | nil => simp [unite, conflicting, SortedMap.union]
    | cons second right => simp [unite]

open Classical in
/-- The union of some maps. -/
noncomputable def united (disjoint : Bool) (maps : List Dict) : Option (List (Str × Value)) :=
  if disjoint ∧ ¬ Agree maps then none else some (folded maps)

theorem united_append (disjoint : Bool) (front back : List Dict) :
    united disjoint (front ++ back) = (united disjoint front).bind fun left =>
      (united disjoint back).bind (unite disjoint left) := by
  have parts : Agree (front ++ back) → Agree front ∧ Agree back := fun all =>
    ⟨fun key value other gives gives' => all key value other (gives_append.mpr (.inl gives))
      (gives_append.mpr (.inl gives')), fun key value other gives gives' =>
      all key value other (gives_append.mpr (.inr gives)) (gives_append.mpr (.inr gives'))⟩
  cases disjoint with
  | false => simp [united, unite_eq, folded_ascending, folded_append]
  | true =>
    by_cases agree : Agree front ∧ Agree back
    · have step := conflicting_eq_false agree.1 agree.2
      by_cases all : Agree (front ++ back)
      · simp [united, unite_eq, folded_ascending, folded_append, agree, all, step.mpr all]
      · have conflict := eq_true_of_ne_false fun none => all (step.mp none)
        simp [united, unite_eq, folded_ascending, agree, all, conflict]
    · have none : ¬ Agree (front ++ back) := fun all => agree (parts all)
      by_cases first : Agree front
      · have second : ¬ Agree back := fun second => agree ⟨first, second⟩
        simp [united, none, first, second]
      · simp [united, none, first]

theorem united_nil (disjoint : Bool) : united disjoint [] = some [] := by
  simp [united, Agree, Gives, folded]

theorem agree_one (map : Dict) : Agree [map] := by
  simp only [Agree, Gives, mem_singleton, exists_eq_left]
  intro key value other found found'
  rw [found] at found'
  cases found'
  simp [Value.equal]

theorem united_one (disjoint : Bool) (map : Dict) : united disjoint [map] = some map.1 := by
  have same : folded [map] = map.1 := ext_find (folded_ascending _) map.2 fun key => by
    simp [folded]
  simp [united, agree_one, same]

theorem unionParts_long (disjoint : Bool) (halvings : Nat) {dicts : List Value}
    (long : 2 ≤ dicts.length) : unionParts disjoint (halvings + 1) dicts =
      (unionParts disjoint halvings (dicts.take (dicts.length / 2))).bind fun left =>
        (unionParts disjoint halvings (dicts.drop (dicts.length / 2))).bind
          (unite disjoint left) := by
  match dicts with
  | [] => cases long
  | [_] => exact absurd long (by simp)
  | _ :: _ :: _ => rfl

theorem unionParts_eq (disjoint : Bool) {halvings : Nat} {maps : List Dict}
    (enough : maps.length ≤ halvings) :
    unionParts disjoint halvings (maps.map fun map => .map map.1) = united disjoint maps := by
  induction halvings generalizing maps with
  | zero =>
    rw [List.length_eq_zero_iff.mp (Nat.le_zero.mp enough), united_nil]
    rfl
  | succ halvings step =>
    by_cases long : 2 ≤ maps.length
    · rw [unionParts_long _ _ (by simpa using long), length_map, ← List.map_take,
        ← List.map_drop, step (by rw [length_take]; omega),
        step (by rw [length_drop]; omega), ← united_append, List.take_append_drop]
    · match maps with
      | [] => exact (united_nil disjoint).symm
      | [map] => exact (united_one disjoint map).symm
      | _ :: _ :: _ => exact absurd (by simp) long

/-- A way to split a list of maps. -/
inductive Splitting where
  | none
  | one (map : Dict)
  | both (left right : Splitting)

/-- The maps, from left to right. -/
def Splitting.maps : Splitting → List Dict
  | .none => []
  | .one map => [map]
  | .both left right => left.maps ++ right.maps

/-- The union, by this way to split. -/
def Splitting.union (disjoint : Bool) : Splitting → Option (List (Str × Value))
  | .none => some []
  | .one map => some map.1
  | .both left right => do unite disjoint (← left.union disjoint) (← right.union disjoint)

theorem Splitting.union_eq (disjoint : Bool) (splitting : Splitting) :
    splitting.union disjoint = united disjoint splitting.maps := by
  induction splitting with
  | none => exact (united_nil disjoint).symm
  | one map => exact (united_one disjoint map).symm
  | both left right step step' =>
    rw [maps, united_append, ← step, ← step']
    rfl

/-- The list of maps as a value. -/
def listOf (maps : List Dict) : Value := .list (maps.map fun map => .map map.1)

theorem union_eq (disjoint : Bool) (maps : List Dict) :
    Functions.union disjoint (listOf maps) = (united disjoint maps).map .map := by
  rw [← unionParts_eq disjoint le_rfl, Functions.union, listOf]
  simp only [Value.asList, bind_eq_bind, bind_some, length_map, Option.map_eq_bind]
  rfl

theorem unionExprs_eq {maps : List Dict} {eval : SubExprEvaluator} {expr : Fields}
    {env : Configuration} (evaluated : evalArgument expr "$1" eval env = some (listOf maps)) :
    unaryExpr (Functions.union false) eval expr env = some (.map (folded maps)) ∧
    (disjointUnionExpr eval expr env = none ↔ (listOf maps).isCacheable = false ∨ ¬ Agree maps) ∧
    ∀ result ∈ disjointUnionExpr eval expr env, result = .map (folded maps) := by
  refine ⟨by simp [unaryExpr, evaluated, union_eq, united], ?_⟩
  by_cases cacheable : (listOf maps).isCacheable = true <;> by_cases agree : Agree maps <;>
    simp [disjointUnionExpr, evaluated, union_eq, united, cacheable, agree]

/-- `map_union` is the fold in which later values win, and so is `disjoint_map_union` unless the
maps contain names or two of them give different values to one key. It does not matter how the list
of maps is split. -/
theorem unions_correct (maps : List Dict) :
    (∀ eval expr env, evalArgument expr "$1" eval env = some (listOf maps) →
      unaryExpr (Functions.union false) eval expr env = some (.map (folded maps)) ∧
      (disjointUnionExpr eval expr env = none ↔ (listOf maps).isCacheable = false ∨ ¬ Agree maps) ∧
      ∀ result ∈ disjointUnionExpr eval expr env, result = .map (folded maps)) ∧
    ∀ disjoint (splitting : Splitting), splitting.maps = maps →
      Functions.union disjoint (listOf maps) = (splitting.union disjoint).map .map :=
  ⟨fun _ _ _ evaluated => unionExprs_eq evaluated, fun disjoint splitting same => by
    rw [union_eq, splitting.union_eq, same]⟩

theorem disjointUnion_name : ¬ ∀ maps eval expr env,
    evalArgument expr "$1" eval env = some (listOf maps) →
      (disjointUnionExpr eval expr env = none ↔ ¬ Agree maps) := by
  intro claim
  have name : Ascending [(lit "a", Value.entity (.name []))] := pairwise_singleton _ _
  have evaluated : evalArgument [(lit "$1", listOf [⟨_, name⟩])] "$1"
      (fun value _ => some value) [] = some (listOf [⟨_, name⟩]) := by
    simp [evalArgument, find_cons]
  exact (claim _ _ _ _ evaluated).mp ((unionExprs_eq evaluated).2.1.mpr (.inl rfl)) (agree_one _)

end Jst.Verif.MapUnions
