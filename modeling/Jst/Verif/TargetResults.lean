import Mathlib.Logic.Relation
import Jst.Expression.TargetResult
import Jst.Verif.ExpressionHash
/-!
# The table of a target result

Writing an expression takes steps, each of which adds an entry to the table or notes what kind of
expression an entry is. What the steps keep is kept by the whole run.
-/
namespace Jst.Verif.TargetResults

open Jst.Expression Jst.Expression.TargetResult
open Jst.Expression.Expr hiding none
open Jst.SortedMap Jst.Verif.ExpressionHash
open Jst.Number (Double)

variable {tables tables' : Tables} {expr : Expr} {id : Str}

/-! ## Parts of expressions -/

/-- The parts of an expression that are written with it. What a name refers to is not part of it. -/
def parts : Expr → List Expr
  | .result artifactStage provides runfiles _ => [artifactStage, runfiles, provides]
  | .valueNode value => [value]
  | .abstractNode _ stringFields targetFields => [stringFields, targetFields]
  | .list items => items
  | .map fields => fields.map snd
  | _ => []

/-- An expression occurs in another one. -/
def Occurs (whole part : Expr) : Prop :=
  Relation.ReflTransGen (fun outer inner => inner ∈ parts outer) whole part

/-- An expression occurs in one of several expressions. -/
def Among (roots : List Expr) (expr : Expr) : Prop := ∃ root ∈ roots, Occurs root expr

theorem among_of_parts {whole : Expr} (among : Among (parts whole) expr) : Among [whole] expr := by
  obtain ⟨part, direct, occurs⟩ := among
  exact ⟨whole, mem_singleton_self _, .head direct occurs⟩

variable {more roots : List Expr}

theorem Among.mono (sub : roots ⊆ more) (among : Among roots expr) : Among more expr := by
  obtain ⟨root, member, occurs⟩ := among
  exact ⟨root, sub member, occurs⟩

/-! ## Steps -/

section Steps

variable (doubleText : Double → Str) (sha : Str → Str) (replacements : Replacements)

/-- The identifiers of expressions one by one. -/
def Identified (exprs : List Expr) (entries : List JsonValue) : Prop :=
  List.Forall₂ (fun expr entry => ∃ id, expr.toIdentifier doubleText sha = some id ∧
    entry = .string id) exprs entries

/-- The entry of an expression that is no artifact: its parts by their identifiers, or its JSON. -/
inductive IsEntry : Expr → JsonValue → Prop where
  | map {fields : List (Str × Expr)} {entries : List (Str × JsonValue)}
    (keys : fields.map fst = entries.map fst)
    (values : Identified doubleText sha (fields.map snd) (entries.map snd)) :
    IsEntry (.map fields) (.object entries)
  | list {items : List Expr} {entries : List JsonValue}
    (values : Identified doubleText sha items entries) : IsEntry (.list items) (.array entries)
  | valueNode {value : Expr} {id : Str} (identified : value.toIdentifier doubleText sha = some id) :
    IsEntry (.valueNode value) (.object [(lit "result", .string id),
      (lit "type", .string (lit "VALUE_NODE"))])
  | abstractNode {nodeType : Str} {stringFields targetFields : Expr} {strings targets : Str}
    (identified : stringFields.toIdentifier doubleText sha = some strings)
    (identified' : targetFields.toIdentifier doubleText sha = some targets) :
    IsEntry (.abstractNode nodeType stringFields targetFields)
      (.object [(lit "node_type", .string nodeType), (lit "string_fields", .string strings),
        (lit "target_fields", .string targets), (lit "type", .string (lit "ABSTRACT_NODE"))])
  | result {artifactStage provides runfiles : Expr} {flag : Bool} {stage given run : Str}
    (identifiedStage : artifactStage.toIdentifier doubleText sha = some stage)
    (identifiedGiven : provides.toIdentifier doubleText sha = some given)
    (identifiedRun : runfiles.toIdentifier doubleText sha = some run) :
    IsEntry (.result artifactStage provides runfiles flag)
      (.object [(lit "artifact_stage", .string stage), (lit "provides", .string given),
        (lit "runfiles", .string run)])
  | plain {expr : Expr} {json : JsonValue} (plain : group expr = 0 ∨ group expr = 1)
    (written : expr.toJson doubleText sha .serializeAll = some json) : IsEntry expr json

/-- One step of writing expressions. -/
inductive Step (roots : List Expr) : Tables → Tables → Prop where
  | node {tables : Tables} {expr : Expr} {id : Str} (among : Among roots expr)
    (isNode : group expr = 4) (identified : expr.toIdentifier doubleText sha = some id) :
    Step roots tables { tables with targetNodes := tables.targetNodes ++ [id] }
  | result {tables : Tables} {expr : Expr} {id : Str} (among : Among roots expr)
    (isResult : group expr = 3) (identified : expr.toIdentifier doubleText sha = some id) :
    Step roots tables { tables with results := tables.results ++ [id] }
  | artifact {tables : Tables} {artifact : ArtifactDescription} {id : Str} {json : JsonValue}
    (among : Among roots (.artifact artifact)) (fresh : find id tables.nodes = none)
    (identified : (Expr.artifact artifact).toIdentifier doubleText sha = some id)
    (written : serializeArtifactDescription doubleText sha replacements (.artifact artifact) =
      .ok json) :
    Step roots tables { tables with
      artifacts := tables.artifacts ++ [id], nodes := (id, json) :: tables.nodes }
  | entry {tables : Tables} {expr : Expr} {id : Str} {json : JsonValue} (among : Among roots expr)
    (identified : expr.toIdentifier doubleText sha = some id)
    (isEntry : IsEntry doubleText sha expr json)
    (written : ∀ part ∈ parts expr, ∃ id, part.toIdentifier doubleText sha = some id ∧
      (find id tables.nodes).isSome = true)
    (fresh : find id tables.nodes = none ∨ ∃ inner, Among (parts expr) inner ∧
      inner.toIdentifier doubleText sha = some id)
    (noted : group expr = 4 → id ∈ tables.targetNodes)
    (noted' : group expr = 3 → id ∈ tables.results) :
    Step roots tables { tables with nodes := (id, json) :: tables.nodes }

/-- Writing expressions takes some steps. -/
def Grows (roots : List Expr) : Tables → Tables → Prop :=
  Relation.ReflTransGen (Step doubleText sha replacements roots)

end Steps

variable {doubleText : Double → Str} {sha : Str → Str} {replacements : Replacements}

theorem ok_of_bind {Error Value Result : Type} {first : Except Error Value}
    {next : Value → Except Error Result} {result : Result} (ok : first >>= next = .ok result) :
    ∃ value, first = .ok value ∧ next value = .ok result := by
  cases first with
  | error error => cases ok
  | ok value => exact ⟨value, rfl, ok⟩

theorem eq_some_of_orTerminate {Value : Type} {value : Option Value} {result : Value}
    (ok : orTerminate value = .ok result) : value = some result := by
  cases value with
  | none => cases ok
  | some value => cases ok; rfl

theorem Grows.mono (sub : ∀ expr, Among roots expr → Among more expr)
    (grows : Grows doubleText sha replacements roots tables tables') :
    Grows doubleText sha replacements more tables tables' := by
  refine Relation.ReflTransGen.mono (fun first second step => ?_) _ _ grows
  cases step with
  | node among isNode identified => exact .node (sub _ among) isNode identified
  | result among isResult identified => exact .result (sub _ among) isResult identified
  | artifact among fresh identified written =>
    exact .artifact (sub _ among) fresh identified written
  | entry among identified isEntry written fresh noted noted' =>
    exact .entry (sub _ among) identified isEntry written fresh noted noted'

theorem Grows.trans {between : Tables}
    (first : Grows doubleText sha replacements roots tables between)
    (second : Grows doubleText sha replacements roots between tables') :
    Grows doubleText sha replacements roots tables tables' :=
  Relation.ReflTransGen.trans first second

theorem Grows.find_isSome {roots : List Expr}
    (grows : Grows doubleText sha replacements roots tables tables')
    (found : (find id tables.nodes).isSome = true) : (find id tables'.nodes).isSome = true := by
  induction grows with
  | refl => exact found
  | tail _ step ih =>
    cases step with
    | node _ _ _ | result _ _ _ => exact ih
    | artifact _ _ _ _ | entry _ _ _ _ _ _ _ =>
      rw [find_cons]
      split
      · rfl
      · exact ih

theorem Grows.notes (grows : Grows doubleText sha replacements roots tables tables') :
    tables.artifacts ⊆ tables'.artifacts ∧ tables.targetNodes ⊆ tables'.targetNodes ∧
      tables.results ⊆ tables'.results := by
  induction grows with
  | refl => exact ⟨fun _ same => same, fun _ same => same, fun _ same => same⟩
  | tail _ step ih =>
    obtain ⟨artifacts, targetNodes, results⟩ := ih
    cases step with
    | node _ _ _ => exact ⟨artifacts, fun _ old => mem_append_left _ (targetNodes old), results⟩
    | result _ _ _ =>
      exact ⟨artifacts, targetNodes, fun _ old => mem_append_left _ (results old)⟩
    | artifact _ _ _ _ =>
      exact ⟨fun _ old => mem_append_left _ (artifacts old), targetNodes, results⟩
    | entry _ _ _ _ _ _ _ => exact ⟨artifacts, targetNodes, results⟩

theorem Grows.fresh (grows : Grows doubleText sha replacements roots tables tables')
    (fresh : find id tables.nodes = none) :
    find id tables'.nodes = none ∨ ∃ inner, Among roots inner ∧
      inner.toIdentifier doubleText sha = some id := by
  induction grows with
  | refl => exact .inl fresh
  | tail _ step ih =>
    rcases ih with absent | present
    · cases step with
      | node _ _ _ | result _ _ _ => exact .inl absent
      | artifact among _ identified _ | entry among identified _ _ _ _ _ =>
        rw [find_cons]
        split
        · rename_i same
          exact .inr ⟨_, among, same ▸ identified⟩
        · exact .inl absent
    · exact .inr present

theorem writeOnce_cases {write : Str → Tables → Except Failure (JsonValue × Tables)}
    (written : writeOnce doubleText sha expr write tables = .ok (id, tables')) :
    expr.toIdentifier doubleText sha = some id ∧
      (((find id tables.nodes).isSome = true ∧ tables' = tables) ∨
        find id tables.nodes = none ∧ ∃ json between, write id tables = .ok (json, between) ∧
          tables' = { between with nodes := (id, json) :: between.nodes }) := by
  obtain ⟨_, identified, written⟩ := ok_of_bind written
  have same := eq_some_of_orTerminate identified
  split at written
  · cases written
    exact ⟨same, .inl ⟨by assumption, rfl⟩⟩
  · obtain ⟨⟨json, between⟩, inside, rest⟩ := ok_of_bind written
    cases rest
    exact ⟨same, .inr ⟨not_isSome_iff_eq_none.mp ‹_›, json, between, inside, rfl⟩⟩

/-- What a run that wrote an expression did: it took steps, and the expression has an entry now. -/
def Wrote (doubleText : Double → Str) (sha : Str → Str) (replacements : Replacements) (expr : Expr)
    (tables tables' : Tables) (id : Str) : Prop :=
  expr.toIdentifier doubleText sha = some id ∧ (find id tables'.nodes).isSome = true ∧
    Grows doubleText sha replacements [expr] tables tables'

theorem Wrote.among (wrote : Wrote doubleText sha replacements expr tables tables' id)
    {roots : List Expr} (member : expr ∈ roots) :
    Grows doubleText sha replacements roots tables tables' :=
  wrote.2.2.mono fun _ among => among.mono fun _ same => by
    rw [mem_singleton.mp same]
    exact member

theorem Wrote.later {part : Expr} {later : Tables}
    (wrote : Wrote doubleText sha replacements part tables tables' id)
    (grows : Grows doubleText sha replacements roots tables' later) :
    ∃ id, part.toIdentifier doubleText sha = some id ∧ (find id later.nodes).isSome = true :=
  ⟨id, wrote.1, grows.find_isSome wrote.2.1⟩

theorem wrote_of_writeOnce {write : Str → Tables → Except Failure (JsonValue × Tables)}
    (written : writeOnce doubleText sha expr write tables = .ok (id, tables'))
    (step : ∀ json between, expr.toIdentifier doubleText sha = some id →
      find id tables.nodes = none → write id tables = .ok (json, between) →
      Grows doubleText sha replacements [expr] tables
        { between with nodes := (id, json) :: between.nodes }) :
    Wrote doubleText sha replacements expr tables tables' id := by
  obtain ⟨identified, ⟨found, rfl⟩ | ⟨fresh, json, between, inside, rfl⟩⟩ := writeOnce_cases written
  · exact ⟨identified, found, .refl⟩
  · refine ⟨identified, ?_, step json between identified fresh inside⟩
    rw [find_cons, if_pos rfl]
    rfl

theorem among_self (expr : Expr) : Among [expr] expr := ⟨expr, mem_singleton_self _, .refl⟩

theorem grows_of_parts {between : Tables} {json : JsonValue}
    (identified : expr.toIdentifier doubleText sha = some id) (fresh : find id tables.nodes = none)
    (grows : Grows doubleText sha replacements (parts expr) tables between)
    (isEntry : IsEntry doubleText sha expr json)
    (written : ∀ part ∈ parts expr, ∃ id, part.toIdentifier doubleText sha = some id ∧
      (find id between.nodes).isSome = true) (noted : group expr = 4 → id ∈ between.targetNodes)
    (noted' : group expr = 3 → id ∈ between.results) :
    Grows doubleText sha replacements [expr] tables
      { between with nodes := (id, json) :: between.nodes } :=
  .tail (grows.mono fun _ => among_of_parts)
    (.entry (among_self expr) identified isEntry written (grows.fresh fresh) noted noted')

mutual
theorem wrote_of_serializeExpression : ∀ (expr : Expr) {tables tables' : Tables} {id : Str},
    serializeExpression doubleText sha replacements expr tables = .ok (id, tables') →
    Wrote doubleText sha replacements expr tables tables' id
  | .map fields, tables, tables', id, written => by
    refine wrote_of_writeOnce written fun json between identified fresh inside => ?_
    obtain ⟨⟨entries, later⟩, inside, rest⟩ := ok_of_bind inside
    cases rest
    obtain ⟨keys, values, written, grows⟩ := wrote_of_serializeFields fields inside
    exact grows_of_parts identified fresh grows (.map keys values) written
      (fun isNode => (nomatch isNode)) fun isResult => (nomatch isResult)
  | .list items, tables, tables', id, written => by
    refine wrote_of_writeOnce written fun json between identified fresh inside => ?_
    obtain ⟨⟨entries, later⟩, inside, rest⟩ := ok_of_bind inside
    cases rest
    obtain ⟨values, written, grows⟩ := wrote_of_serializeItems items inside
    exact grows_of_parts identified fresh grows (.list values) written
      (fun isNode => (nomatch isNode)) fun isResult => (nomatch isResult)
  | .valueNode value, tables, tables', id, written => by
    refine wrote_of_writeOnce written fun json between identified fresh inside => ?_
    obtain ⟨⟨hash, later⟩, inside, rest⟩ := ok_of_bind inside
    cases rest
    have wrote := wrote_of_serializeExpression value inside
    have grows := wrote.among (mem_singleton_self value)
    have noted := grows.notes.2.1 (mem_append_right _ (mem_singleton_self id))
    refine .head (.node (among_self _) rfl identified) (grows_of_parts identified fresh grows
      (.valueNode wrote.1) ?_ (fun _ => noted) fun isResult => (nomatch isResult))
    intro part member
    rw [mem_singleton.mp member]
    exact ⟨hash, wrote.1, wrote.2.1⟩
  | .abstractNode nodeType stringFields targetFields, tables, tables', id, written => by
    refine wrote_of_writeOnce written fun json between identified fresh inside => ?_
    obtain ⟨⟨strings, later⟩, first, inside⟩ := ok_of_bind inside
    obtain ⟨⟨targets, last⟩, second, rest⟩ := ok_of_bind inside
    cases rest
    have wrote := wrote_of_serializeExpression stringFields first
    have wrote' := wrote_of_serializeExpression targetFields second
    have grows' := @Wrote.among _ _ _ _ _ _ _ wrote' [stringFields, targetFields] (by simp)
    have grows := (@Wrote.among _ _ _ _ _ _ _ wrote [stringFields, targetFields] (by simp)).trans
      grows'
    have noted := grows.notes.2.1 (mem_append_right _ (mem_singleton_self id))
    refine .head (.node (among_self _) rfl identified) (grows_of_parts identified fresh grows
      (.abstractNode wrote.1 wrote'.1) ?_ (fun _ => noted) fun isResult => (nomatch isResult))
    intro part member
    rcases mem_cons.mp member with rfl | member
    · exact wrote.later grows'
    · rw [mem_singleton.mp member]
      exact ⟨targets, wrote'.1, wrote'.2.1⟩
  | .result artifactStage provides runfiles flag, tables, tables', id, written => by
    refine wrote_of_writeOnce written fun json between identified fresh inside => ?_
    obtain ⟨⟨stage, later⟩, first, inside⟩ := ok_of_bind inside
    obtain ⟨⟨run, last⟩, second, inside⟩ := ok_of_bind inside
    obtain ⟨⟨given, final⟩, third, rest⟩ := ok_of_bind inside
    cases rest
    have wrote := wrote_of_serializeExpression artifactStage first
    have wrote' := wrote_of_serializeExpression runfiles second
    have wrote'' := wrote_of_serializeExpression provides third
    let all := parts (.result artifactStage provides runfiles flag)
    have grows'' := @Wrote.among _ _ _ _ _ _ _ wrote'' all (by simp [all, parts])
    have grows' := (@Wrote.among _ _ _ _ _ _ _ wrote' all (by simp [all, parts])).trans grows''
    have grows := (@Wrote.among _ _ _ _ _ _ _ wrote all (by simp [all, parts])).trans grows'
    have noted := grows.notes.2.2 (mem_append_right _ (mem_singleton_self id))
    refine .head (.result (among_self _) rfl identified) (grows_of_parts identified fresh grows
      (.result wrote.1 wrote''.1 wrote'.1) ?_ (fun isNode => (nomatch isNode)) fun _ => noted)
    intro part member
    rcases mem_cons.mp member with rfl | member
    · exact wrote.later grows'
    rcases mem_cons.mp member with rfl | member
    · exact wrote'.later grows''
    · rw [mem_singleton.mp member]
      exact ⟨given, wrote''.1, wrote''.2.1⟩
  | .artifact description, tables, tables', id, written => by
    refine wrote_of_writeOnce written fun json between identified fresh inside => ?_
    obtain ⟨json, described, rest⟩ := ok_of_bind inside
    cases rest
    exact .single (.artifact (among_self _) fresh identified described)
  | .none, tables, tables', id, written | .bool _, tables, tables', id, written
  | .number _, tables, tables', id, written | .string _, tables, tables', id, written
  | .namedTarget _, tables, tables', id, written
  | .anonymousTarget _ _, tables, tables', id, written => by
    refine wrote_of_writeOnce written fun json between identified fresh inside => ?_
    obtain ⟨json, described, rest⟩ := ok_of_bind inside
    cases rest
    exact grows_of_parts identified fresh .refl (.plain (by simp [group])
      (eq_some_of_orTerminate described)) (fun part none => (nomatch none))
      (fun isNode => (nomatch isNode)) fun isResult => (nomatch isResult)

theorem wrote_of_serializeItems : ∀ (items : List Expr) {tables tables' : Tables}
    {entries : List JsonValue},
    serializeItems doubleText sha replacements items tables = .ok (entries, tables') →
    Identified doubleText sha items entries ∧
      (∀ item ∈ items, ∃ id, item.toIdentifier doubleText sha = some id ∧
        (find id tables'.nodes).isSome = true) ∧
      Grows doubleText sha replacements items tables tables'
  | [], tables, tables', entries, written => by
    cases written
    exact ⟨.nil, fun item none => (nomatch none), .refl⟩
  | item :: rest, tables, tables', entries, written => by
    obtain ⟨⟨id, between⟩, first, written⟩ := ok_of_bind written
    obtain ⟨⟨more, last⟩, second, result⟩ := ok_of_bind written
    cases result
    have wrote := wrote_of_serializeExpression item first
    obtain ⟨identified, present, grows⟩ := wrote_of_serializeItems rest second
    refine ⟨.cons ⟨id, wrote.1, rfl⟩ identified, ?_,
      (wrote.among mem_cons_self).trans (grows.mono fun _ among =>
        among.mono (List.subset_cons_self _ _))⟩
    intro part member
    rcases mem_cons.mp member with rfl | later
    · exact wrote.later grows
    · exact present part later

theorem wrote_of_serializeFields : ∀ (fields : List (Str × Expr)) {tables tables' : Tables}
    {entries : List (Str × JsonValue)},
    serializeFields doubleText sha replacements fields tables = .ok (entries, tables') →
    fields.map fst = entries.map fst ∧
      Identified doubleText sha (fields.map snd) (entries.map snd) ∧
      (∀ item ∈ fields.map snd, ∃ id, item.toIdentifier doubleText sha = some id ∧
        (find id tables'.nodes).isSome = true) ∧
      Grows doubleText sha replacements (fields.map snd) tables tables'
  | [], tables, tables', entries, written => by
    cases written
    exact ⟨rfl, .nil, fun item none => (nomatch none), .refl⟩
  | (key, value) :: rest, tables, tables', entries, written => by
    obtain ⟨⟨id, between⟩, first, written⟩ := ok_of_bind written
    obtain ⟨⟨more, last⟩, second, result⟩ := ok_of_bind written
    cases result
    have wrote := wrote_of_serializeExpression value first
    obtain ⟨keys, identified, present, grows⟩ := wrote_of_serializeFields rest second
    refine ⟨congrArg _ keys, .cons ⟨id, wrote.1, rfl⟩ identified, ?_,
      (wrote.among mem_cons_self).trans (grows.mono fun _ among =>
        among.mono (List.subset_cons_self _ _))⟩
    intro part member
    rcases mem_cons.mp member with rfl | later
    · exact wrote.later grows
    · exact present part later
end

/-! ## The whole result -/

/-- The JSON of a result, made of its stages and its table. -/
def resultJson (artifacts runfiles : List (Str × JsonValue)) (entry : Str) (tables : Tables) :
    JsonValue :=
  .object [(lit "artifacts", .object artifacts),
    (lit "provides", .object [(lit "entry", .string entry),
      (lit "nodes", .object (emplaceAll tables.nodes [])),
      (lit "provided_artifacts", jsonStrings tables.artifacts),
      (lit "provided_nodes", jsonStrings tables.targetNodes),
      (lit "provided_results", jsonStrings tables.results)]),
    (lit "runfiles", .object runfiles)]

theorem serializeProvidesMap_of_written {entry : Str}
    (written : serializeExpression doubleText sha replacements expr ⟨[], [], [], []⟩ =
      .ok (entry, tables)) : serializeProvidesMap doubleText sha replacements expr = .ok
      (.object [(lit "entry", .string entry), (lit "nodes", .object (emplaceAll tables.nodes [])),
        (lit "provided_artifacts", jsonStrings tables.artifacts),
        (lit "provided_nodes", jsonStrings tables.targetNodes),
        (lit "provided_results", jsonStrings tables.results)]) := by
  unfold serializeProvidesMap
  rw [written]
  rfl

theorem serialize_of_parts {result : TargetResult} {artifacts runfiles : List (Str × JsonValue)}
    {entry : Str} (staged : serializeArtifactMap doubleText sha replacements result.artifactStage =
      .ok (.object artifacts))
    (run : serializeArtifactMap doubleText sha replacements result.runfiles = .ok (.object runfiles))
    (written : serializeExpression doubleText sha replacements result.provides ⟨[], [], [], []⟩ =
      .ok (entry, tables)) : serialize doubleText sha replacements result =
      .ok (resultJson artifacts runfiles entry tables) := by
  unfold serialize
  rw [staged, run, serializeProvidesMap_of_written written]
  rfl

end Jst.Verif.TargetResults
