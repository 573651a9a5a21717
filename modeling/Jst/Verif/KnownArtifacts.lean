import Jst.Verif.TargetResults
/-!
# Known artifacts in cached results

A result is cached with its unknown artifacts replaced. The run with replacements follows the run
without, until an artifact lacks a replacement. But without any replacement the result is written as
it is.
-/
namespace Jst.Verif.KnownArtifacts

open Jst.Expression Jst.Expression.TargetResult
open Jst.Expression.Expr hiding none
open Jst.SortedMap Jst.Verif.ExpressionHash Jst.Verif.TargetResults
open Jst.Number (Double)

variable {replaced tables' plain : Tables} {id : Str} {roots : List Expr}

/-! ## What is asked for -/

/-- An artifact that is not known and has no replacement. -/
def Unreplaced (replacements : Replacements) (artifact : ArtifactDescription) : Prop :=
  artifact.isKnown = false ∧ replacements.lookup artifact = none

/-- An artifact of a result. -/
def IsArtifactOf (result : TargetResult) (artifact : ArtifactDescription) : Prop :=
  Among [result.artifactStage, result.runfiles, result.provides] (.artifact artifact)

/-- The description of a known artifact. -/
def DescribesKnown (json : JsonValue) : Prop :=
  ArtifactDescription.extractString json "type" = some (lit "KNOWN")

/-- Where the JSON of a result describes artifacts: staged, among the runfiles, or in the table of
what is provided, which has all that is nested. -/
inductive Mentions (json : JsonValue) : JsonValue → Prop where
  | artifact {fields : List (Str × JsonValue)} {key : Str} {description : JsonValue}
    (found : jsonField json "artifacts" = some (.object fields))
    (member : (key, description) ∈ fields) : Mentions json description
  | runfile {fields : List (Str × JsonValue)} {key : Str} {description : JsonValue}
    (found : jsonField json "runfiles" = some (.object fields))
    (member : (key, description) ∈ fields) : Mentions json description
  | provided {provides description : JsonValue} {ids : List JsonValue}
    {nodes : List (Str × JsonValue)} {id : Str}
    (found : jsonField json "provides" = some provides)
    (listed : jsonField provides "provided_artifacts" = some (.array ids))
    (member : .string id ∈ ids) (table : jsonField provides "nodes" = some (.object nodes))
    (entry : (id, description) ∈ nodes) : Mentions json description

/-- Artifacts in a stage. -/
def IsStage (expr : Expr) : Prop :=
  ∃ fields, expr = .map fields ∧ ∀ field ∈ fields, ∃ artifact, field.2 = .artifact artifact

/-- What is asked of writing a result with replacements: only known artifacts are mentioned, and
nothing is written if a replacement is missing. -/
def MentionsOnlyKnown (doubleText : Double → Str) (sha : Str → Str) (replacements : Replacements)
    (result : TargetResult) : Prop :=
  (∀ json, replaceNonKnownAndToJson doubleText sha replacements result = some (some json) →
    ∀ description, Mentions json description → DescribesKnown description) ∧
  ((∃ artifact, IsArtifactOf result artifact ∧ Unreplaced replacements artifact) →
    replaceNonKnownAndToJson doubleText sha replacements result = some none)

variable {doubleText : Double → Str} {sha : Str → Str} {replacements : Replacements}

/-! ## Descriptions -/

theorem describesKnown_toJson (artifact : ArtifactDescription) :
    DescribesKnown artifact.toJson ↔ artifact.isKnown = true := by
  have type : ∀ name data, ArtifactDescription.extractString
      (ArtifactDescription.describe name data) "type" = some (lit name) := by
    intro name data
    rfl
  cases artifact <;>
    simp [DescribesKnown, ArtifactDescription.toJson, type, lit_inj, ArtifactDescription.isKnown]

theorem serializeArtifactDescription_cases (given : replacements.isEmpty = false)
    (artifact : ArtifactDescription) :
    (¬Unreplaced replacements artifact ∧ ∃ json, DescribesKnown json ∧
      serializeArtifactDescription doubleText sha replacements (.artifact artifact) = .ok json) ∨
    (Unreplaced replacements artifact ∧
      serializeArtifactDescription doubleText sha replacements (.artifact artifact) =
        .error .exception) := by
  unfold serializeArtifactDescription
  simp only [given, false_eq_true, if_false]
  cases known : artifact.isKnown with
  | true =>
    have notLacks : ¬Unreplaced replacements artifact := by simp [Unreplaced, known]
    exact .inl ⟨notLacks, _, (describesKnown_toJson artifact).mpr known, rfl⟩
  | false =>
    cases found : replacements.lookup artifact with
    | none => exact .inr ⟨⟨known, found⟩, rfl⟩
    | some info =>
      have notLacks : ¬Unreplaced replacements artifact := by simp [Unreplaced, found]
      exact .inl ⟨notLacks, _, (describesKnown_toJson (.known info.hash info.size info.type)).mpr rfl,
        rfl⟩

theorem serializeArtifacts_cases (given : replacements.isEmpty = false)
    {fields : List (Str × Expr)} (stage : ∀ field ∈ fields, ∃ artifact, field.2 = .artifact artifact) :
    (∃ entries, serializeArtifacts doubleText sha replacements fields = .ok entries ∧
      (∀ entry ∈ entries, DescribesKnown entry.2) ∧
      ∀ artifact, .artifact artifact ∈ fields.map snd → ¬Unreplaced replacements artifact) ∨
    (serializeArtifacts doubleText sha replacements fields = .error .exception ∧
      ∃ artifact, .artifact artifact ∈ fields.map snd ∧ Unreplaced replacements artifact) := by
  induction fields with
  | nil => exact .inl ⟨[], rfl, fun _ none => (nomatch none), fun _ none => (nomatch none)⟩
  | cons field rest ih =>
    obtain ⟨key, value⟩ := field
    obtain ⟨artifact, rfl⟩ := stage _ mem_cons_self
    rcases serializeArtifactDescription_cases given artifact with
      ⟨replaced, json, known, described⟩ | ⟨lacks, described⟩
    · rcases ih (forall_mem_cons.mp stage).2 with
        ⟨entries, written, allKnown, allReplaced⟩ | ⟨written, other, member, lacks⟩
      · refine .inl ⟨(key, json) :: entries, ?_, ?_, ?_⟩
        · rw [serializeArtifacts, described, written]
          rfl
        · intro entry member
          rcases mem_cons.mp member with rfl | later
          · exact known
          · exact allKnown entry later
        · intro other member
          rcases mem_cons.mp member with same | later
          · cases same
            exact replaced
          · exact allReplaced other later
      · refine .inr ⟨?_, other, mem_cons_of_mem _ member, lacks⟩
        rw [serializeArtifacts, described, written]
        rfl
    · refine .inr ⟨?_, artifact, mem_cons_self, lacks⟩
      rw [serializeArtifacts, described]
      rfl

/-! ## The run with replacements and the run without -/

/-- Two tables have entries for the same expressions and the same notes. -/
def SameShape (plain replaced : Tables) : Prop :=
  plain.nodes.map fst = replaced.nodes.map fst ∧ plain.artifacts = replaced.artifacts ∧
    plain.targetNodes = replaced.targetNodes ∧ plain.results = replaced.results

/-- Some artifact on a list of identifiers lacks a replacement. -/
def Lacks (doubleText : Double → Str) (sha : Str → Str) (replacements : Replacements)
    (ids : List Str) : Prop :=
  ∃ artifact id, Unreplaced replacements artifact ∧
    (Expr.artifact artifact).toIdentifier doubleText sha = some id ∧ id ∈ ids

/-- A run with replacements comes to the same table as the plain one, or it is stopped by an
artifact that the plain one lists. -/
def Follows (doubleText : Double → Str) (sha : Str → Str) (replacements : Replacements)
    {Value Other : Type} (same : Value → Other → Prop) (plain : Value × Tables)
    (run : Except Failure (Other × Tables)) : Prop :=
  (∃ value tables, run = .ok (value, tables) ∧ same plain.1 value ∧ SameShape plain.2 tables) ∨
    run = .error .exception ∧ Lacks doubleText sha replacements plain.2.artifacts

theorem Follows.bind {Value Other Value' Other' : Type} {same : Value → Other → Prop}
    {same' : Value' → Other' → Prop} {plain : Value × Tables} {plain' : Value' × Tables}
    {run : Except Failure (Other × Tables)} {next : Other × Tables → Except Failure (Other' × Tables)}
    (first : Follows doubleText sha replacements same plain run)
    (listed : plain.2.artifacts ⊆ plain'.2.artifacts)
    (second : ∀ value tables, same plain.1 value → SameShape plain.2 tables →
      Follows doubleText sha replacements same' plain' (next (value, tables))) :
    Follows doubleText sha replacements same' plain' (run >>= next) := by
  rcases first with ⟨value, tables, rfl, values, shapes⟩ | ⟨rfl, artifact, id, lacks, named, member⟩
  · exact second value tables values shapes
  · exact .inr ⟨rfl, artifact, id, lacks, named, listed member⟩

theorem Follows.ok {Value Other : Type} {same : Value → Other → Prop} {value : Value}
    {other : Other} (values : same value other) (shapes : SameShape plain replaced) :
    Follows doubleText sha replacements same (value, plain) (.ok (other, replaced)) :=
  .inl ⟨other, replaced, rfl, values, shapes⟩

theorem find_isSome_iff {Value : Type} {nodes : List (Str × Value)} :
    (find id nodes).isSome = true ↔ id ∈ nodes.map fst := by
  induction nodes with
  | nil => simp
  | cons entry rest ih =>
    obtain ⟨key, value⟩ := entry
    rw [find_cons]
    by_cases same : key = id
    · simp [same]
    · simp [same, ih, Ne.symm same]

theorem SameShape.find_isSome (shapes : SameShape plain replaced) (id : Str) :
    (find id plain.nodes).isSome = (find id replaced.nodes).isSome := by
  rw [Bool.eq_iff_iff, find_isSome_iff, find_isSome_iff, shapes.1]

theorem SameShape.entry (shapes : SameShape plain replaced) (id : Str) (json json' : JsonValue) :
    SameShape { plain with nodes := (id, json) :: plain.nodes }
      { replaced with nodes := (id, json') :: replaced.nodes } :=
  ⟨congrArg (id :: ·) shapes.1, shapes.2⟩

variable {expr : Expr}

theorem follows_writeOnce
    {write write' : Str → Tables → Except Failure (JsonValue × Tables)} {plain' : Tables}
    (shapes : SameShape plain replaced)
    (written : writeOnce doubleText sha expr write plain = .ok (id, plain'))
    (inner : ∀ json between, write id plain = .ok (json, between) →
      Follows doubleText sha replacements (fun _ _ => True) (json, between) (write' id replaced)) :
    Follows doubleText sha replacements Eq (id, plain')
      (writeOnce doubleText sha expr write' replaced) := by
  obtain ⟨identified, cases'⟩ := writeOnce_cases written
  have identify : (orTerminate (expr.toIdentifier doubleText sha) : Except Failure Str) = .ok id := by
    rw [identified]
    rfl
  rcases cases' with ⟨found, rfl⟩ | ⟨fresh, json, between, inside, rfl⟩
  · rw [shapes.find_isSome] at found
    have run : writeOnce doubleText sha expr write' replaced = .ok (id, replaced) := by
      unfold writeOnce
      rw [identify]
      exact if_pos found
    rw [run]
    exact .ok rfl shapes
  · have absent : ¬(find id replaced.nodes).isSome = true := by
      rw [← shapes.find_isSome, fresh]
      exact fun none => (nomatch none)
    have run : writeOnce doubleText sha expr write' replaced = (write' id replaced >>= fun written =>
        .ok (id, { written.2 with nodes := (id, written.1) :: written.2.nodes })) := by
      unfold writeOnce
      rw [identify]
      exact if_neg absent
    rw [run]
    exact (inner json between inside).bind (fun _ same => same) fun json' tables _ shapes' =>
      .ok rfl (shapes'.entry id json json')

variable {tables : Tables}

theorem artifacts_subset
    (written : serializeExpression doubleText sha replacements expr tables = .ok (id, tables')) :
    tables.artifacts ⊆ tables'.artifacts :=
  (wrote_of_serializeExpression expr written).2.2.notes.1

mutual
theorem follows_serializeExpression (given : replacements.isEmpty = false) :
    ∀ (expr : Expr) {plain plain' replaced : Tables} {id : Str}, SameShape plain replaced →
      serializeExpression doubleText sha [] expr plain = .ok (id, plain') →
      Follows doubleText sha replacements Eq (id, plain')
        (serializeExpression doubleText sha replacements expr replaced)
  | .map fields, plain, plain', replaced, id, shapes, written => by
    refine follows_writeOnce shapes written fun json between inside => ?_
    obtain ⟨⟨entries, later⟩, first, rest⟩ := ok_of_bind inside
    cases rest
    exact (follows_serializeFields given fields shapes first).bind (fun _ same => same)
      fun value tables _ shapes' => .ok trivial shapes'
  | .list items, plain, plain', replaced, id, shapes, written => by
    refine follows_writeOnce shapes written fun json between inside => ?_
    obtain ⟨⟨entries, later⟩, first, rest⟩ := ok_of_bind inside
    cases rest
    exact (follows_serializeItems given items shapes first).bind (fun _ same => same)
      fun value tables _ shapes' => .ok trivial shapes'
  | .valueNode value, plain, plain', replaced, id, shapes, written => by
    refine follows_writeOnce shapes written fun json between inside => ?_
    obtain ⟨⟨hash, later⟩, first, rest⟩ := ok_of_bind inside
    cases rest
    have noted : SameShape { plain with targetNodes := plain.targetNodes ++ [id] }
        { replaced with targetNodes := replaced.targetNodes ++ [id] } :=
      ⟨shapes.1, shapes.2.1, congrArg (· ++ [id]) shapes.2.2.1, shapes.2.2.2⟩
    exact (follows_serializeExpression given value noted first).bind (fun _ same => same)
      fun value tables _ shapes' => .ok trivial shapes'
  | .abstractNode nodeType stringFields targetFields, plain, plain', replaced, id, shapes,
      written => by
    refine follows_writeOnce shapes written fun json between inside => ?_
    obtain ⟨⟨strings, later⟩, first, inside⟩ := ok_of_bind inside
    obtain ⟨⟨targets, last⟩, second, rest⟩ := ok_of_bind inside
    cases rest
    have noted : SameShape { plain with targetNodes := plain.targetNodes ++ [id] }
        { replaced with targetNodes := replaced.targetNodes ++ [id] } :=
      ⟨shapes.1, shapes.2.1, congrArg (· ++ [id]) shapes.2.2.1, shapes.2.2.2⟩
    exact (follows_serializeExpression given stringFields noted first).bind
      (artifacts_subset second) fun value tables _ shapes' =>
        (follows_serializeExpression given targetFields shapes' second).bind (fun _ same => same)
          fun value tables _ shapes'' => .ok trivial shapes''
  | .result artifactStage provides runfiles flag, plain, plain', replaced, id, shapes, written => by
    refine follows_writeOnce shapes written fun json between inside => ?_
    obtain ⟨⟨stage, later⟩, first, inside⟩ := ok_of_bind inside
    obtain ⟨⟨run, last⟩, second, inside⟩ := ok_of_bind inside
    obtain ⟨⟨given', final⟩, third, rest⟩ := ok_of_bind inside
    cases rest
    have noted : SameShape { plain with results := plain.results ++ [id] }
        { replaced with results := replaced.results ++ [id] } :=
      ⟨shapes.1, shapes.2.1, shapes.2.2.1, congrArg (· ++ [id]) shapes.2.2.2⟩
    exact (follows_serializeExpression given artifactStage noted first).bind
      (List.Subset.trans (artifacts_subset second) (artifacts_subset third)) fun value tables _ shapes' =>
        (follows_serializeExpression given runfiles shapes' second).bind (artifacts_subset third)
          fun value tables _ shapes'' =>
            (follows_serializeExpression given provides shapes'' third).bind (fun _ same => same)
              fun value tables _ shapes''' => .ok trivial shapes'''
  | .artifact description, plain, plain', replaced, id, shapes, written => by
    have named := (wrote_of_serializeExpression _ written).1
    refine follows_writeOnce shapes written fun json between inside => ?_
    obtain ⟨json, described, rest⟩ := ok_of_bind inside
    cases rest
    have noted : SameShape { plain with artifacts := plain.artifacts ++ [id] }
        { replaced with artifacts := replaced.artifacts ++ [id] } :=
      ⟨shapes.1, congrArg (· ++ [id]) shapes.2.1, shapes.2.2⟩
    rcases @serializeArtifactDescription_cases doubleText sha _ given description with
      ⟨-, json', -, described'⟩ | ⟨lacks, described'⟩
    · refine .inl ⟨json', _, ?_, trivial, noted⟩
      rw [described']
      rfl
    · refine .inr ⟨?_, description, id, lacks, named,
        mem_append_right _ (mem_singleton_self id)⟩
      rw [described']
      rfl
  | .none, plain, plain', replaced, id, shapes, written
  | .bool _, plain, plain', replaced, id, shapes, written
  | .number _, plain, plain', replaced, id, shapes, written
  | .string _, plain, plain', replaced, id, shapes, written
  | .namedTarget _, plain, plain', replaced, id, shapes, written
  | .anonymousTarget _ _, plain, plain', replaced, id, shapes, written => by
    refine follows_writeOnce shapes written fun json between inside => ?_
    obtain ⟨json, described, rest⟩ := ok_of_bind inside
    cases rest
    refine .inl ⟨json, _, ?_, trivial, shapes⟩
    rw [described]
    rfl

theorem follows_serializeItems (given : replacements.isEmpty = false) :
    ∀ (items : List Expr) {plain plain' replaced : Tables} {entries : List JsonValue},
      SameShape plain replaced →
      serializeItems doubleText sha [] items plain = .ok (entries, plain') →
      Follows doubleText sha replacements Eq (entries, plain')
        (serializeItems doubleText sha replacements items replaced)
  | [], plain, plain', replaced, entries, shapes, written => by
    cases written
    exact .ok rfl shapes
  | item :: rest, plain, plain', replaced, entries, shapes, written => by
    obtain ⟨⟨id, between⟩, first, written⟩ := ok_of_bind written
    obtain ⟨⟨more, last⟩, second, result⟩ := ok_of_bind written
    cases result
    have listed := (wrote_of_serializeItems rest second).2.2.notes.1
    exact (follows_serializeExpression given item shapes first).bind listed
      fun value tables same shapes' =>
        (follows_serializeItems given rest shapes' second).bind (fun _ same => same)
          fun values tables same' shapes'' => .ok (by rw [← same, ← same']) shapes''

theorem follows_serializeFields (given : replacements.isEmpty = false) :
    ∀ (fields : List (Str × Expr)) {plain plain' replaced : Tables}
      {entries : List (Str × JsonValue)}, SameShape plain replaced →
      serializeFields doubleText sha [] fields plain = .ok (entries, plain') →
      Follows doubleText sha replacements Eq (entries, plain')
        (serializeFields doubleText sha replacements fields replaced)
  | [], plain, plain', replaced, entries, shapes, written => by
    cases written
    exact .ok rfl shapes
  | (key, value) :: rest, plain, plain', replaced, entries, shapes, written => by
    obtain ⟨⟨id, between⟩, first, written⟩ := ok_of_bind written
    obtain ⟨⟨more, last⟩, second, result⟩ := ok_of_bind written
    cases result
    have listed := (wrote_of_serializeFields rest second).2.2.2.notes.1
    exact (follows_serializeExpression given value shapes first).bind listed
      fun value tables same shapes' =>
        (follows_serializeFields given rest shapes' second).bind (fun _ same => same)
          fun values tables same' shapes'' => .ok (by rw [← same, ← same']) shapes''
end

/-! ## What is in the table -/

theorem toHash_of_toIdentifier (identified : expr.toIdentifier doubleText sha = some id) :
    ∃ hash, expr.toHash doubleText sha = some hash ∧ id = toHexString hash := by
  obtain ⟨hash, hashed, rfl⟩ := map_eq_some_iff.mp identified
  exact ⟨hash, hashed, rfl⟩

theorem alike_of_toIdentifier (collisionFree : CollisionFree sha)
    (doubles : IsDoubleText doubleText) {left right : Expr}
    (identified : left.toIdentifier doubleText sha = some id)
    (identified' : right.toIdentifier doubleText sha = some id) :
    Alike doubleText sha left right := by
  obtain ⟨hash, hashed, rfl⟩ := toHash_of_toIdentifier identified
  obtain ⟨hash', hashed', same⟩ := toHash_of_toIdentifier identified'
  exact (toHash_eq_iff collisionFree doubles left right hashed hashed').mp
    (toHexString_injective same)

theorem group_of_isEntry {json : JsonValue}
    (isEntry : IsEntry doubleText sha expr json) : group expr ≠ 2 := by
  cases isEntry with
  | plain plain _ => rcases plain with none | name <;> omega
  | _ => simp [group]

theorem written_of_grows (collisionFree : CollisionFree sha) (doubles : IsDoubleText doubleText)
    (grows : Grows doubleText sha replacements roots tables tables') :
    ∀ entry ∈ tables'.nodes, ∀ artifact,
      (Expr.artifact artifact).toIdentifier doubleText sha = some entry.1 →
      entry ∈ tables.nodes ∨ Among roots (.artifact artifact) ∧
        serializeArtifactDescription doubleText sha replacements (.artifact artifact) =
          .ok entry.2 := by
  induction grows with
  | refl => exact fun _ member _ _ => .inl member
  | tail _ step before =>
    cases step with
    | node _ _ _ | result _ _ _ => exact before
    | artifact among _ identified written =>
      intro entry member other identified'
      cases mem_cons.mp member with
      | inl new =>
        subst new
        have same := alike_of_toIdentifier collisionFree doubles identified identified'
        simp only [Alike, Expr.artifact.injEq, IsNullish, false_and, or_false] at same
        exact .inr (same ▸ ⟨among, written⟩)
      | inr old => exact before entry old other identified'
    | entry _ identified isEntry _ _ _ _ =>
      intro entry member other identified'
      cases mem_cons.mp member with
      | inl new =>
        subst new
        have same := group_of_alike
          (alike_of_toIdentifier collisionFree doubles identified identified')
        exact absurd same (group_of_isEntry isEntry)
      | inr old => exact before entry old other identified'

theorem describesKnown_of_grows (collisionFree : CollisionFree sha)
    (doubles : IsDoubleText doubleText)
    (grows : Grows doubleText sha replacements roots tables tables')
    (known : ∀ artifact json, Among roots (.artifact artifact) →
      serializeArtifactDescription doubleText sha replacements (.artifact artifact) = .ok json →
      DescribesKnown json) (before : ∀ entry ∈ tables.nodes, ∀ artifact,
      (Expr.artifact artifact).toIdentifier doubleText sha = some entry.1 → DescribesKnown entry.2) :
    ∀ entry ∈ tables'.nodes, ∀ artifact,
      (Expr.artifact artifact).toIdentifier doubleText sha = some entry.1 →
      DescribesKnown entry.2 := by
  intro entry member artifact identified
  cases written_of_grows collisionFree doubles grows entry member artifact identified with
  | inl old => exact before entry old artifact identified
  | inr new => exact known artifact entry.2 new.1 new.2

theorem described_of_grows (grows : Grows doubleText sha replacements roots tables tables')
    (listed : id ∈ tables'.artifacts) :
    id ∈ tables.artifacts ∨ ∃ artifact json, Among roots (.artifact artifact) ∧
      (Expr.artifact artifact).toIdentifier doubleText sha = some id ∧
      serializeArtifactDescription doubleText sha replacements (.artifact artifact) = .ok json := by
  induction grows with
  | refl => exact .inl listed
  | tail _ step ih =>
    cases step with
    | node _ _ _ | result _ _ _ | entry _ _ _ _ _ _ _ => exact ih listed
    | artifact among _ identified written =>
      rcases mem_append.mp listed with old | new
      · exact ih old
      · rw [mem_singleton.mp new]
        exact .inr ⟨_, _, among, identified, written⟩

theorem among_stage {fields : List (Str × Expr)}
    (stage : ∀ field ∈ fields, ∃ artifact, field.2 = .artifact artifact)
    {artifact : ArtifactDescription} :
    Occurs (.map fields) (.artifact artifact) ↔ .artifact artifact ∈ fields.map snd := by
  constructor
  · intro occurs
    cases Relation.ReflTransGen.cases_head occurs with
    | inl same => cases same
    | inr first =>
      obtain ⟨part, direct, rest⟩ := first
      obtain ⟨field, member, rfl⟩ := mem_map.mp direct
      obtain ⟨other, isArtifact⟩ := stage field member
      rw [isArtifact] at rest direct
      cases Relation.ReflTransGen.cases_head rest with
      | inl same => exact same ▸ direct
      | inr next =>
        obtain ⟨part, none, -⟩ := next
        cases none
  · intro member
    exact .single member

theorem serializeArtifactMap_cases (given : replacements.isEmpty = false) {expr : Expr}
    (stage : IsStage expr) :
    (∃ entries, serializeArtifactMap doubleText sha replacements expr = .ok (.object entries) ∧
      (∀ entry ∈ entries, DescribesKnown entry.2) ∧
      ∀ artifact, Occurs expr (.artifact artifact) → ¬Unreplaced replacements artifact) ∨
    (serializeArtifactMap doubleText sha replacements expr = .error .exception ∧
      ∃ artifact, Occurs expr (.artifact artifact) ∧ Unreplaced replacements artifact) := by
  obtain ⟨fields, rfl, artifacts⟩ := stage
  unfold serializeArtifactMap
  rw [given]
  rcases @serializeArtifacts_cases doubleText sha _ given fields artifacts with
    ⟨entries, written, known, replaced⟩ | ⟨written, artifact, member, lacks⟩
  · refine .inl ⟨entries, ?_, known, fun artifact occurs => ?_⟩
    · simp only [false_eq_true, if_false, written]
      rfl
    · exact replaced artifact ((among_stage artifacts).mp occurs)
  · refine .inr ⟨?_, artifact, (among_stage artifacts).mpr member, lacks⟩
    simp only [false_eq_true, if_false, written]
    rfl

theorem serializeArtifactMap_plain {expr : Expr} (stage : IsStage expr) :
    ∃ entries, serializeArtifactMap doubleText sha [] expr = .ok (.object entries) ∧
      ∀ entry ∈ entries, ∃ artifact, Occurs expr (.artifact artifact) ∧
        entry.2 = artifact.toJson := by
  obtain ⟨fields, rfl, artifacts⟩ := stage
  have views : ∃ entries, (viewFields doubleText sha fields).all = some entries ∧
      ∀ entry ∈ entries, ∃ artifact, .artifact artifact ∈ fields.map snd ∧
        entry.2 = artifact.toJson := by
    induction fields with
    | nil => exact ⟨[], rfl, fun _ none => (nomatch none)⟩
    | cons field rest ih =>
      obtain ⟨key, value⟩ := field
      obtain ⟨artifact, rfl⟩ := artifacts _ mem_cons_self
      obtain ⟨entries, shown, each⟩ := ih fun field member =>
        artifacts field (mem_cons_of_mem _ member)
      refine ⟨(key, artifact.toJson) :: entries, ?_, ?_⟩
      · simp [viewFields, view, View.ofJson, shown]
      · intro entry member
        rcases mem_cons.mp member with rfl | later
        · exact ⟨artifact, mem_cons_self, rfl⟩
        · obtain ⟨other, inside, same⟩ := each entry later
          exact ⟨other, mem_cons_of_mem _ inside, same⟩
  obtain ⟨entries, shown, each⟩ := views
  refine ⟨entries, ?_, fun entry member => ?_⟩
  · have json : (Expr.map fields).toJson doubleText sha .serializeAll = some (.object entries) := by
      simp [Expr.toJson, View.json, view, shown]
    simp [serializeArtifactMap, json, orTerminate]
  · obtain ⟨artifact, inside, same⟩ := each entry member
    exact ⟨artifact, (among_stage artifacts).mpr inside, same⟩

/-! ## The whole result -/

variable {artifacts runfiles : List (Str × JsonValue)}

theorem mentions_resultJson {entry : Str} {description : JsonValue}
    (mentions : Mentions (resultJson artifacts runfiles entry tables) description) :
    (∃ key, (key, description) ∈ artifacts) ∨ (∃ key, (key, description) ∈ runfiles) ∨
      ∃ id ∈ tables.artifacts, (id, description) ∈ tables.nodes := by
  cases mentions with
  | @artifact fields key _ found member =>
    simp [resultJson, jsonField, find_cons] at found
    exact .inl ⟨key, found ▸ member⟩
  | @runfile fields key _ found member =>
    simp [resultJson, jsonField, find_cons, lit_inj] at found
    exact .inr (.inl ⟨key, found ▸ member⟩)
  | @provided provides _ ids nodes id found listed member table entry =>
    simp [resultJson, jsonField, find_cons, lit_inj] at found
    subst found
    simp [jsonField, find_cons, lit_inj, jsonStrings] at listed table
    subst listed table
    have stored := find_of_mem (emplaceAll_ascending tables.nodes List.Pairwise.nil) entry
    rw [find_emplaceAll, find_nil, none_or] at stored
    simp at member
    exact .inr (.inr ⟨id, member, mem_of_find stored⟩)

theorem serialize_eq {result : TargetResult} {entry : Str}
    (staged : serializeArtifactMap doubleText sha replacements result.artifactStage =
      .ok (.object artifacts))
    (run : serializeArtifactMap doubleText sha replacements result.runfiles = .ok (.object runfiles))
    (written : serializeExpression doubleText sha replacements result.provides ⟨[], [], [], []⟩ =
      .ok (entry, tables)) : replaceNonKnownAndToJson doubleText sha replacements result =
      some (some (resultJson artifacts runfiles entry tables)) := by
  rw [replaceNonKnownAndToJson, serialize_of_parts staged run written]

/-- An artifact that lacks a replacement where the run comes to it: staged, among the runfiles, or
listed by the plain run. -/
def MeetsLack (doubleText : Double → Str) (sha : Str → Str) (replacements : Replacements)
    (result : TargetResult) (tables : Tables) : Prop :=
  (∃ artifact, Unreplaced replacements artifact ∧
      Among [result.artifactStage, result.runfiles] (.artifact artifact)) ∨
    Lacks doubleText sha replacements tables.artifacts

theorem replaceNonKnownAndToJson_cases (collisionFree : CollisionFree sha)
    (doubles : IsDoubleText doubleText) (given : replacements.isEmpty = false)
    {result : TargetResult} (stage : IsStage result.artifactStage) (run : IsStage result.runfiles)
    {entry : Str} {tables : Tables}
    (plain : serializeExpression doubleText sha [] result.provides ⟨[], [], [], []⟩ =
      .ok (entry, tables)) :
    (∃ json, replaceNonKnownAndToJson doubleText sha replacements result = some (some json) ∧
      (∀ description, Mentions json description → DescribesKnown description) ∧
      ¬MeetsLack doubleText sha replacements result tables) ∨
    (replaceNonKnownAndToJson doubleText sha replacements result = some none ∧
      MeetsLack doubleText sha replacements result tables) := by
  rcases @serializeArtifactMap_cases doubleText sha _ given _ stage with
    ⟨artifacts, staged, knownStage, replacedStage⟩ | ⟨staged, artifact, occurs, lacks⟩
  swap
  · refine .inr ⟨?_, .inl ⟨artifact, lacks, _, mem_cons_self, occurs⟩⟩
    rw [replaceNonKnownAndToJson, serialize, staged]
    rfl
  rcases @serializeArtifactMap_cases doubleText sha _ given _ run with
    ⟨runfiles, ran, knownRun, replacedRun⟩ | ⟨ran, artifact, occurs, lacks⟩
  swap
  · refine .inr ⟨?_, .inl ⟨artifact, lacks, _, mem_cons_of_mem _ mem_cons_self, occurs⟩⟩
    rw [replaceNonKnownAndToJson, serialize, staged, ran]
    rfl
  have shapes : SameShape ⟨[], [], [], []⟩ ⟨[], [], [], []⟩ := ⟨rfl, rfl, rfl, rfl⟩
  rcases follows_serializeExpression given result.provides shapes plain with
    ⟨id, replaced, written, -, shapes'⟩ | ⟨written, lacks⟩
  swap
  · refine .inr ⟨?_, .inr lacks⟩
    rw [replaceNonKnownAndToJson, serialize, staged, ran, serializeProvidesMap, written]
    rfl
  refine .inl ⟨_, serialize_eq staged ran written, ?_, ?_⟩
  · have grows := (wrote_of_serializeExpression _ written).2.2
    have known := describesKnown_of_grows collisionFree doubles grows
      (fun artifact json _ described => by
        rcases @serializeArtifactDescription_cases doubleText sha _ given artifact with
          ⟨-, json', known, described'⟩ | ⟨-, none⟩
        · rw [described] at described'
          rw [ok.inj described']
          exact known
        · rw [described] at none
          cases none) (fun _ none => (nomatch none))
    intro description mentions
    rcases mentions_resultJson mentions with ⟨key, member⟩ | ⟨key, member⟩ | ⟨id, listed, member⟩
    · exact knownStage _ member
    · exact knownRun _ member
    · rcases described_of_grows grows listed with none | ⟨artifact, _, -, identified, -⟩
      · cases none
      · exact known _ member artifact identified
  · rintro (⟨artifact, lacks, root, member, occurs⟩ | ⟨artifact, id, lacks, identified, listed⟩)
    · rcases mem_cons.mp member with rfl | member
      · exact replacedStage artifact occurs lacks
      · rw [mem_singleton.mp member] at occurs
        exact replacedRun artifact occurs lacks
    · have grows := (wrote_of_serializeExpression _ written).2.2
      rw [shapes'.2.1] at listed
      rcases described_of_grows grows listed with none | ⟨other, json, -, identified', described⟩
      · cases none
      · have same := alike_of_toIdentifier collisionFree doubles identified identified'
        simp only [Alike, Expr.artifact.injEq, IsNullish, false_and, or_false] at same
        subst same
        rcases @serializeArtifactDescription_cases doubleText sha _ given artifact with
          ⟨replaced, -⟩ | ⟨-, none⟩
        · exact replaced lacks
        · rw [described] at none
          cases none

theorem replaceNonKnownAndToJson_plain (collisionFree : CollisionFree sha)
    (doubles : IsDoubleText doubleText) {result : TargetResult}
    (stage : IsStage result.artifactStage) (run : IsStage result.runfiles) {entry : Str}
    {tables : Tables}
    (plain : serializeExpression doubleText sha [] result.provides ⟨[], [], [], []⟩ =
      .ok (entry, tables)) :
    ∃ json, replaceNonKnownAndToJson doubleText sha [] result = some (some json) ∧
      ((∀ artifact, IsArtifactOf result artifact → artifact.isKnown = true) →
        ∀ description, Mentions json description → DescribesKnown description) := by
  obtain ⟨artifacts, staged, eachStaged⟩ := @serializeArtifactMap_plain doubleText sha _ stage
  obtain ⟨runfiles, ran, eachRun⟩ := @serializeArtifactMap_plain doubleText sha _ run
  refine ⟨_, serialize_eq staged ran plain, fun allKnown description mentions => ?_⟩
  have grows := (wrote_of_serializeExpression _ plain).2.2
  have known := describesKnown_of_grows collisionFree doubles grows
    (fun artifact json among described => by
      cases described
      refine (describesKnown_toJson artifact).mpr (allKnown artifact ?_)
      exact among.mono (fun _ same => by simp [mem_singleton.mp same]))
    (fun _ none => (nomatch none))
  rcases mentions_resultJson mentions with ⟨key, member⟩ | ⟨key, member⟩ | ⟨id, listed, member⟩
  · obtain ⟨artifact, occurs, same⟩ := eachStaged _ member
    rw [show description = artifact.toJson from same]
    exact (describesKnown_toJson artifact).mpr (allKnown artifact ⟨_, by simp, occurs⟩)
  · obtain ⟨artifact, occurs, same⟩ := eachRun _ member
    rw [show description = artifact.toJson from same]
    exact (describesKnown_toJson artifact).mpr (allKnown artifact ⟨_, by simp, occurs⟩)
  · rcases described_of_grows grows listed with none | ⟨artifact, _, -, identified, -⟩
    · cases none
    · exact known _ member artifact identified

/-- A result is written with known artifacts only, and not at all if a replacement is missing,
exactly if all its artifacts are known, or there are replacements and either none is missing or the
run comes to an artifact that lacks one. -/
theorem mentionsOnlyKnown_iff (collisionFree : CollisionFree sha) (doubles : IsDoubleText doubleText)
    {result : TargetResult} (stage : IsStage result.artifactStage) (run : IsStage result.runfiles)
    {entry : Str} {tables : Tables}
    (plain : serializeExpression doubleText sha [] result.provides ⟨[], [], [], []⟩ =
      .ok (entry, tables)) (replacements : Replacements) :
    MentionsOnlyKnown doubleText sha replacements result ↔
      (∀ artifact, IsArtifactOf result artifact → artifact.isKnown = true) ∨
      replacements ≠ [] ∧
        ((∀ artifact, IsArtifactOf result artifact → ¬Unreplaced replacements artifact) ∨
          MeetsLack doubleText sha replacements result tables) := by
  cases replacements with
  | nil =>
    obtain ⟨json, written, known⟩ :=
      replaceNonKnownAndToJson_plain collisionFree doubles stage run plain
    constructor
    · intro ⟨_, complains⟩
      left
      intro artifact isPart
      by_contra unknown
      have none := complains ⟨artifact, isPart, by simpa using unknown, rfl⟩
      rw [written] at none
      cases none
    · rintro (allKnown | ⟨given, -⟩)
      · refine ⟨fun other same => ?_, fun ⟨lacking, isPart, lacks⟩ => ?_⟩
        · rw [written] at same
          cases same
          exact known allKnown
        · have unknown := lacks.1
          rw [allKnown lacking isPart] at unknown
          cases unknown
      · exact absurd rfl given
  | cons first rest =>
    rcases @replaceNonKnownAndToJson_cases doubleText sha (first :: rest) collisionFree doubles rfl
        result stage run entry tables plain with ⟨json, written, known, meets⟩ | ⟨written, meets⟩
    · constructor
      · intro ⟨_, complains⟩
        refine .inr ⟨cons_ne_nil _ _, .inl fun artifact isPart lacks => ?_⟩
        have none := complains ⟨artifact, isPart, lacks⟩
        rw [written] at none
        cases none
      · intro condition
        refine ⟨fun other same => ?_, fun ⟨lacking, isPart, lacks⟩ => ?_⟩
        · rw [written] at same
          cases same
          exact known
        · rcases condition with allKnown | ⟨-, replaced | lack⟩
          · have unknown := lacks.1
            rw [allKnown lacking isPart] at unknown
            cases unknown
          · exact absurd lacks (replaced lacking isPart)
          · exact absurd lack meets
    · constructor
      · intro _
        exact .inr ⟨cons_ne_nil _ _, .inr meets⟩
      · intro _
        refine ⟨fun other same => ?_, fun _ => written⟩
        rw [written] at same
        cases same

/-- The digest of the empty map. -/
def emptyMapDigest : List (Str × Str) :=
  [(lit "\x7b", [2, 31, 181, 150, 219, 129, 230, 208, 43, 243, 210, 88, 110, 227, 152, 31,
    229, 25, 242, 117, 192, 172, 156, 167, 107, 188, 242, 235, 180, 9, 125, 150])]

/-- The output of an action. -/
def output : ArtifactDescription := .action (lit "a") (lit "out")

/-- A result with an output that is not known. -/
def outputResult : TargetResult :=
  .make (.map [(lit "out", .artifact output)]) (.map []) (.map [])

theorem outputResult_isStage : IsStage outputResult.artifactStage ∧ IsStage outputResult.runfiles ∧
      IsStage outputResult.provides := by
  refine ⟨⟨_, rfl, fun field member => ⟨output, ?_⟩⟩, ⟨_, rfl, fun _ none => (nomatch none)⟩,
    ⟨_, rfl, fun _ none => (nomatch none)⟩⟩
  rw [mem_singleton.mp member]

theorem eq_output {artifact : ArtifactDescription} (isPart : IsArtifactOf outputResult artifact) :
    artifact = output := by
  obtain ⟨root, member, occurs⟩ := isPart
  have inside : ∀ {fields : List (Str × Expr)}, IsStage (.map fields) →
      Occurs (.map fields) (.artifact artifact) → .artifact artifact ∈ fields.map snd := by
    rintro fields ⟨_, same, artifacts⟩ occurs
    cases same
    exact (among_stage artifacts).mp occurs
  simp only [mem_cons, not_mem_nil, or_false] at member
  rcases member with rfl | rfl | rfl
  · have found := inside outputResult_isStage.1 occurs
    simpa using found
  · exact absurd (inside outputResult_isStage.2.1 occurs) (by simp)
  · exact absurd (inside outputResult_isStage.2.2 occurs) (by simp)

theorem mentionsOnlyKnown_iff_output :
    MentionsOnlyKnown bitsText (digestsOf emptyMapDigest) [(output, ⟨lit "0", 1, .file⟩)]
      outputResult :=
  (mentionsOnlyKnown_iff (digestsOf_collisionFree (by decide)) bitsText_isDoubleText
    outputResult_isStage.1 outputResult_isStage.2.1 rfl _).mpr
    (.inr ⟨cons_ne_nil _ _, .inl fun artifact isPart lacks => by
      rw [eq_output isPart] at lacks
      cases lacks.2⟩)

theorem not_mentionsOnlyKnown :
    ¬∀ (doubleText : Double → Str) (sha : Str → Str), CollisionFree sha → IsDoubleText doubleText →
      ∀ result : TargetResult, IsStage result.artifactStage → IsStage result.runfiles →
        ∀ replacements, MentionsOnlyKnown doubleText sha replacements result := by
  intro holds
  have collisionFree : CollisionFree (digestsOf emptyMapDigest) :=
    digestsOf_collisionFree (by decide)
  have none := (holds bitsText _ collisionFree bitsText_isDoubleText outputResult
    outputResult_isStage.1 outputResult_isStage.2.1 []).2
    ⟨output, ⟨_, mem_cons_self, .single mem_cons_self⟩, rfl, rfl⟩
  obtain ⟨json, written, -⟩ := @replaceNonKnownAndToJson_plain bitsText (digestsOf emptyMapDigest)
    collisionFree bitsText_isDoubleText outputResult outputResult_isStage.1 outputResult_isStage.2.1
    _ _ rfl
  rw [written] at none
  cases none

end Jst.Verif.KnownArtifacts
