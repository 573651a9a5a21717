import Jst.Lang.StaticBuiltins
import Jst.Verif.Denotation
import Jst.Verif.MapUnions
/-!
# Literal syntax trees

A map denotes the values of its fields, stored one after the other. Literal trees denote the value
that their JSON is read as, which is also what is encoded of them.
-/
namespace Jst.Verif.Literals

open Jst.Expression Jst.Expression.Evaluator Jst.SortedMap Jst.Lang Denotation
open Functions (store unionParts)
open FreeVariables (bare)

variable {library : Library} {imports : Option (List (Str × ExpressionFunction))}
  {env : Configuration}

/-! ## Maps -/

theorem store_isEmpty (entries : List (Str × Value)) :
    (store entries).isEmpty = entries.isEmpty := by
  induction entries using List.reverseRecOn with
  | nil => rfl
  | append_singleton entries entry step =>
    rw [store, foldl_append]
    have stored := insert_ne_nil entry.1 entry.2 (store entries)
    rw [show List.isEmpty (entries ++ [entry]) = false by simp]
    exact List.isEmpty_eq_false_iff.mpr stored

theorem unionParts_singletons {halvings : Nat} {entries : List (Str × Value)}
    (enough : entries.length ≤ halvings) :
    unionParts false halvings (entries.map fun entry => .map [entry]) = some (store entries) := by
  have parts := @MapUnions.unionParts_eq false halvings
    (entries.map fun entry => ⟨[entry], pairwise_singleton _ _⟩) (by simpa using enough)
  rw [map_map] at parts
  refine parts.trans ?_
  simp only [MapUnions.united, MapUnions.folded, List.foldl_map]
  simp
  rfl

theorem evaluate_singleton (key value : Value) :
    evaluate library imports (object "singleton_map" [("key", key), ("value", value)]) env = do
      let key ← evaluate library imports key env let value ← evaluate library imports value env
      return .map [(← key.asString, value)] :=
  evaluate_form (show ("singleton_map", singletonMapExpr) ∈ _ by simp [builtInFunctions]) rfl

theorem evaluate_union (maps : List Value) :
    evaluate library imports (object "map_union" [("$1", .list maps)]) env =
      (maps.mapM fun json => evaluate library imports json env).bind fun list =>
        (unionParts false list.length list).map .map := by
  have form := @evaluate_form library imports env "map_union" (unaryExpr (Functions.union false))
    [(lit "$1", .list maps), (lit "type", .string (lit "map_union"))]
    (by simp [builtInFunctions]) rfl
  refine form.trans ?_
  have argument : evalArgument [(lit "$1", .list maps), (lit "type", .string (lit "map_union"))]
      "$1" (evaluate library imports) env = evaluate library imports (.list maps) env := rfl
  rw [unaryExpr, argument, evaluate_list]
  cases maps.mapM fun json => evaluate library imports json env with
  | none => rfl
  | some list => exact (Option.map_eq_bind ..).symm

theorem toJsonSingletons_eq_mapM (fields : List (Node × Node)) :
    Node.toJsonSingletons fields = (fields.filter fun field => !field.2.isFunc).mapM fun field => do
      return object "singleton_map" [("key", ← field.1.toJson false .none),
        ("value", ← field.2.toJson false .none)] := by
  induction fields with
  | nil => rfl
  | cons field fields step =>
    rw [Node.toJsonSingletons, step, filter_cons]
    cases isFunc : field.2.isFunc with
    | true => rfl
    | false =>
      rw [if_neg false_ne_true, if_pos (by rfl), mapM_cons]
      simp only [bind_eq_bind, pure_def, Option.bind_assoc, bind_some]

/-- The value of a field of a map. -/
def denoteField (library : Library) (imports : Option (List (Str × ExpressionFunction)))
    (env : Configuration) (field : Node × Node) : Option (Str × Value) := do
  let key ← denote library imports field.1 env
  let value ← denote library imports field.2 env
  return (← key.asString, value)

theorem evaluate_field (field : Node × Node) :
    (do return object "singleton_map" [("key", ← field.1.toJson false .none),
        ("value", ← field.2.toJson false .none)] : Option Value).bind
        (fun json => evaluate library imports json env) =
      (denoteField library imports env field).bind fun entry => some (.map [entry]) := by
  unfold denoteField denote
  cases field.1.toJson false .none with
  | none => rfl
  | some key =>
    cases field.2.toJson false .none with
    | none => cases evaluated : evaluate library imports key env <;> simp [evaluated]
    | some value =>
      refine (evaluate_singleton key value).trans ?_
      simp only [bind_eq_bind, pure_def, Option.bind_assoc, bind_some]

theorem denote_map_eq (fields : List (Node × Node)) : denote library imports (.map fields) env =
      ((fields.filter fun field => !field.2.isFunc).mapM (denoteField library imports env)).map
        fun entries => .map (store entries) := by
  have evaluated : (Node.toJsonSingletons fields).bind (fun singletons =>
      singletons.mapM fun json => evaluate library imports json env) =
      ((fields.filter fun field => !field.2.isFunc).mapM (denoteField library imports env)).map
        (List.map fun entry => .map [entry]) := by
    rw [toJsonSingletons_eq_mapM, Loops.mapM_bind_mapM, Loops.mapM_congr fun _ _ => evaluate_field _,
      ← Loops.mapM_bind_mapM, Option.map_eq_bind]
    simp only [Loops.mapM_some]
    rfl
  have short : ∀ {singletons}, Node.toJsonSingletons fields = some singletons →
      singletons.length ≤ fields.length := by
    intro singletons made
    rw [toJsonSingletons_eq_mapM, Loops.mapM_eq_some] at made
    rw [← made.length_eq]
    exact List.length_filter_le _ _
  rw [denote, Node.toJson, if_pos ⟨rfl, rfl⟩]
  cases made : Node.toJsonSingletons fields with
  | none =>
    rw [made] at evaluated
    rw [Option.map_eq_none_iff.mp evaluated.symm]
    rfl
  | some singletons =>
    rw [made, bind_some] at evaluated
    have joined : (singletons.mapM fun json => evaluate library imports json env).bind (fun list =>
        (unionParts false list.length list).map Value.map) =
        ((fields.filter fun field => !field.2.isFunc).mapM (denoteField library imports env)).map
          fun entries => .map (store entries) := by
      rw [evaluated]
      cases (fields.filter fun field => !field.2.isFunc).mapM (denoteField library imports env) with
      | none => rfl
      | some entries =>
        simp only [map_some, bind_some, length_map]
        rw [unionParts_singletons le_rfl, map_some]
    rw [← joined]
    have empty : evaluate library imports emptyMapJson env = some (.map []) :=
      evaluate_form (show ("empty_map", emptyMapForm) ∈ _ by simp [builtInFunctions]) rfl
    have shorter := short made
    rcases fields with _ | ⟨field, _ | ⟨other, rest⟩⟩
    · rw [List.length_eq_zero_iff.mp (Nat.le_zero.mp shorter)]
      exact empty
    · rcases singletons with _ | ⟨singleton, _ | ⟨other, rest⟩⟩
      · exact empty
      · rw [mapM_cons, List.mapM_nil] at evaluated ⊢
        change evaluate library imports singleton env = _
        cases here : evaluate library imports singleton env with
        | none => rfl
        | some value =>
          rw [here] at evaluated
          obtain ⟨entries, -, areMaps⟩ := map_eq_some_iff.mp evaluated.symm
          have member : value ∈ entries.map fun entry => Value.map [entry] := by
            rw [areMaps]
            exact mem_singleton_self value
          obtain ⟨entry, -, rfl⟩ := mem_map.mp member
          rfl
      · simp at shorter
    · exact evaluate_union singletons

/-! ## Literals -/

/-- Scalars, lists, and maps with literal keys, whose fields may also be functions. -/
inductive Literal : Node → Prop where
  | bool (value : Bool) : Literal (.bool value)
  | string (value : Str) : Literal (.string value)
  | number (value : Number.Double) : Literal (.number value)
  | null : Literal .null
  | list {items : List Node} (each : ∀ item ∈ items, Literal item) : Literal (.list items)
  | map {fields : List (Str × Node)}
      (values : ∀ field ∈ fields, field.2.isFunc = false → Literal field.2) :
      Literal (.map (fields.map fun field => (.string field.1, field.2)))

theorem literal_denotes {node : Node} (literal : Literal node) :
    ∃ value, node.toJson true .full = some value ∧
      denote library imports node env = some value := by
  induction literal with
  | bool value => exact ⟨_, rfl, evaluate_atom rfl⟩
  | string value => exact ⟨_, rfl, evaluate_atom rfl⟩
  | number value => exact ⟨_, rfl, evaluate_atom rfl⟩
  | null => exact ⟨_, rfl, evaluate_atom rfl⟩
  | @list items each step =>
    have same : (items.mapM fun item => denote library imports item env) =
        items.mapM (Node.toJson true .full) := by
      refine Loops.mapM_congr fun item member => ?_
      obtain ⟨value, json, denotes⟩ := step item member
      rw [json, denotes]
    obtain ⟨values, made⟩ := Loops.exists_mapM fun item member =>
      (step item member).imp fun _ both => both.1
    refine ⟨.list values, ?_, ?_⟩
    · rw [Node.toJson, show VerbatimType.inner .full .none = .full from rfl, toJsonItems_eq_mapM,
        made]
      rfl
    · rw [denote_list, same, made]
      rfl
  | @map fields values step =>
    have written : ∀ field ∈ fields.filter fun field => !field.2.isFunc, ∃ value,
        field.2.toJson true .full = some value ∧
          denote library imports field.2 env = some value := by
      intro field member
      obtain ⟨inside, notFunc⟩ := mem_filter.mp member
      exact step field inside (by simpa using notFunc)
    have same : ((fields.filter fun field => !field.2.isFunc).mapM fun field =>
        denoteField library imports env (.string field.1, field.2)) =
        (fields.filter fun field => !field.2.isFunc).mapM fun field =>
          (field.2.toJson true .full).map (field.1, ·) := by
      refine Loops.mapM_congr fun field member => ?_
      obtain ⟨value, json, denotes⟩ := written field member
      rw [denoteField, json, denotes, denote_string]
      rfl
    obtain ⟨entries, made⟩ := Loops.exists_mapM (f := fun field : Str × Node =>
      (field.2.toJson true .full).map (field.1, ·)) fun field member => by
        obtain ⟨value, json, -⟩ := written field member
        exact ⟨_, by rw [json]; rfl⟩
    refine ⟨.map (store entries), ?_, ?_⟩
    · rw [Node.toJson, if_neg (by simp), if_pos (by simp [Node.isString]),
        show VerbatimType.inner .full .none = .full from rfl, toJsonFields_eq, made]
      rfl
    · rw [denote_map_eq, List.filter_map, List.mapM_map]
      exact congrArg (Option.map _) (same.trans made)

theorem Literal.notFunc {node : Node} (literal : Literal node) : node.isFunc = false := by
  cases literal <;> rfl

/-- A literal tree denotes what its JSON is read as. What `json_encode` makes of it while compiling
is the text of that value, which is what it would make of it in the evaluation. -/
theorem literal_encoded (library : Library) (imports : Option (List (Str × ExpressionFunction)))
    (env : Configuration) (dump : Value → Except Str Str)
    (sameText : ∀ json, library.dump json = (dump json).toOption) {node : Node}
    (literal : Literal node) :
    ∃ value, node.toJson true .full = some value ∧
      denote library imports node env = some value ∧
      ∀ args named, makeNamedParameters args BuiltIn.jsonEncodeParameters = .ok named →
        lookupParam (lit "data") named = some node →
        ∃ branches, BuiltIn.jsonEncode dump args = .ok branches ∧
          branches.static = (dump value).map (fun text => some (.string text)) ∧
          denote library imports branches.fallback env = (dump value).toOption.map .string := by
  obtain ⟨value, json, denotes⟩ := @literal_denotes library imports env node literal
  refine ⟨value, json, denotes, fun args named made data => ?_⟩
  have called : BuiltIn.jsonEncode dump args = .ok
      ⟨(dump value).map (fun text => some (.string text)),
        runtimeCall "json_encode" [("$1", node)] .string⟩ := by
    unfold BuiltIn.jsonEncode withParameters
    rw [made]
    simp only [retrieve, data]
    change Except.ok _ = _
    rw [json]
    rfl
  refine ⟨_, called, rfl, ?_⟩
  have listed : ("json_encode", jsonEncodeExpr library.dump) ∈ builtInFunctions library.dump := by
    simp [builtInFunctions]
  have distinct : ("type" :: [("$1", node)].map fst).Nodup := by simp
  cases @denote_runtimeCall library imports _ _ _ .string env listed distinct with
  | inl fails =>
    obtain ⟨⟨arg, member, -, unwritten⟩, -⟩ := fails
    rw [mem_singleton.mp member] at unwritten
    rw [denote, unwritten] at denotes
    cases denotes
  | inr written =>
    obtain ⟨expr, written, evaluates⟩ := written
    rw [evaluates, jsonEncodeExpr, written.evalGet_eq mem_cons_self literal.notFunc, denotes]
    simp only [bind_eq_bind, bind_some, sameText]
    exact (Option.map_eq_bind ..).symm

/-- A map with a type and a function. -/
def typedMap : Node :=
  .map [(.string (lit "type"), .string (lit "var")), (.string (lit "f"), .func [] .null)]

theorem typedMap_denotes : ∃ value, typedMap.toJson true .full = some value ∧
    denote bare none typedMap [] = some value := by
  have literal : Literal (.map ([(lit "type", .string (lit "var")),
      (lit "f", .func [] .null)].map fun field => (.string field.1, field.2))) := by
    refine .map fun field member notFunc => ?_
    cases member with
    | head => exact .string _
    | tail _ member =>
      rw [mem_singleton.mp member] at notFunc
      cases notFunc
  obtain ⟨value, json, denotes, -⟩ := literal_encoded bare none [] (fun _ => .error []) (fun _ => rfl)
    literal
  exact ⟨value, json, denotes⟩

end Jst.Verif.Literals
