import Jst.Data.Runs
import Jst.Storage.TargetCache
import Jst.Verif.ActionUplink
import Jst.Verif.KnownArtifacts
/-!
# Entries of export targets keep their artifacts

The entry that is created for a target lists exactly the artifacts of its result, at any depth, if
no two expressions with the same hash differ in their artifacts: an expression whose hash is in the
table already is skipped with all that is in it. An uplink makes the implied entries, the artifacts
and the blob of an entry available before its key, so every visible key has all it refers to.
-/
namespace Jst.Verif.TargetCacheEntries

open Expression Expression.TargetResult SortedMap
open Expression.Expr hiding none
open Storage Storage.Generations Storage.TargetCache Storage.TargetCacheEntry
open TargetResults KnownArtifacts ExpressionHash Uplinking ActionUplink
open Number (Double)

variable {json desc : JsonValue} {depth : Str → Nat} {implied : List Str} {key : Str}

/-! ## What is asked for -/

/-- What is recorded of an artifact: what is known of it, or what replaces it. -/
def InfoOf (replacements : Replacements) (artifact : ArtifactDescription) (info : ObjectInfo) : Prop :=
  artifact = .known info.hash info.size info.type ∨
    artifact.isKnown = false ∧ replacements.lookup artifact = some info

/-- An entry lists exactly the artifacts that occur in a result. -/
def Lists (hashType : HashType) (replacements : Replacements) (result : TargetResult)
    (desc : JsonValue) : Prop :=
  ∃ infos, toArtifacts hashType desc = some infos ∧ ∀ info, info ∈ infos ↔
    ∃ artifact, IsArtifactOf result artifact ∧ InfoOf replacements artifact info

/-- Expressions with the same hash have the same artifacts. -/
def Unconflated (doubleText : Double → Str) (sha : Str → Str) (root : Expr) : Prop :=
  ∀ left right, Among [root] left → Among [root] right →
    ∀ id, left.toIdentifier doubleText sha = some id → right.toIdentifier doubleText sha = some id →
      ∀ artifact, Occurs left (.artifact artifact) → Occurs right (.artifact artifact)

/-- The digests of the artifacts and of the replacements are of one hash type. -/
def HasDigests (hashType : HashType) (replacements : Replacements) (result : TargetResult) : Prop :=
  (∀ artifact, IsArtifactOf result artifact → artifact.HasType hashType) ∧
    ∀ entry ∈ replacements, ArtifactDescription.isDigest hashType entry.2.hash = true

/-- Without replacements all artifacts have to be known. -/
def AllKnown (replacements : Replacements) (result : TargetResult) : Prop :=
  replacements = [] → ∀ artifact, IsArtifactOf result artifact → artifact.isKnown = true

variable {doubleText : Double → Str} {sha : Str → Str} {replacements : Replacements}
  {hashType : HashType} {result : TargetResult}

/-! ## Descriptions -/

theorem mapM_of_forall {Item Value : Type} {read : Item → Option Value} {items : List Item}
    (each : ∀ item ∈ items, ∃ value, read item = some value) :
    ∃ values, items.mapM read = some values ∧
      ∀ value, value ∈ values ↔ ∃ item ∈ items, read item = some value := by
  induction items with
  | nil => exact ⟨[], rfl, fun value => by simp⟩
  | cons item rest step =>
    obtain ⟨first, readFirst⟩ := each item mem_cons_self
    obtain ⟨values, readRest, members⟩ := step (forall_mem_cons.mp each).2
    refine ⟨first :: values, ?_, fun value => ?_⟩
    · rw [mapM_cons, readFirst, readRest]
      rfl
    · rw [mem_cons, members]
      constructor
      · rintro (rfl | ⟨other, member, same⟩)
        · exact ⟨item, mem_cons_self, readFirst⟩
        · exact ⟨other, mem_cons_of_mem _ member, same⟩
      · rintro ⟨other, member, same⟩
        cases mem_cons.mp member with
        | inl here =>
          rw [here, readFirst] at same
          exact .inl (some.inj same).symm
        | inr later => exact .inr ⟨other, later, same⟩

theorem serializeArtifactDescription_plain (artifact : ArtifactDescription) :
    serializeArtifactDescription doubleText sha [] (.artifact artifact) = .ok artifact.toJson := rfl

theorem toObjectInfo_known {info : ObjectInfo}
    (digest : ArtifactDescription.isDigest hashType info.hash = true) :
    toObjectInfo hashType (ArtifactDescription.known info.hash info.size info.type).toJson =
      some info := by
  unfold toObjectInfo
  rw [@ArtifactDescription.fromJson_toJson hashType (.known info.hash info.size info.type) digest]

variable {artifact : ArtifactDescription}

theorem toObjectInfo_described (digests : HasDigests hashType replacements result)
    (allKnown : AllKnown replacements result) (isPart : IsArtifactOf result artifact)
    (written : serializeArtifactDescription doubleText sha replacements (.artifact artifact) =
      .ok json) (info : ObjectInfo) :
    toObjectInfo hashType json = some info ↔ InfoOf replacements artifact info := by
  -- what is known of an artifact is read from its JSON
  have asKnown : artifact.isKnown = true → json = artifact.toJson →
      (toObjectInfo hashType json = some info ↔ InfoOf replacements artifact info) := by
    rintro isKnown rfl
    cases artifact with
    | known hash size type =>
      have read := @toObjectInfo_known hashType ⟨hash, size, type⟩ (digests.1 _ isPart)
      simp only at read
      rw [read, InfoOf]
      constructor
      · intro same
        cases same
        exact .inl rfl
      · rintro (same | ⟨unknown, -⟩)
        · cases same
          rfl
        · cases unknown
    | _ => cases isKnown
  cases replacements with
  | nil =>
    rw [serializeArtifactDescription_plain] at written
    cases written
    exact asKnown (allKnown rfl artifact isPart) rfl
  | cons first rest =>
    unfold serializeArtifactDescription at written
    simp only [List.isEmpty_cons, false_eq_true, if_false] at written
    cases known : artifact.isKnown with
    | true =>
      rw [known] at written
      cases written
      exact asKnown known rfl
    | false =>
      rw [known] at written
      cases found : List.lookup artifact (first :: rest) with
      | none =>
        rw [found] at written
        cases written
      | some other =>
        rw [found] at written
        cases written
        obtain ⟨front, back, shape, -⟩ := List.lookup_eq_some_iff.mp found
        have member : (artifact, other) ∈ first :: rest := by
          rw [shape]
          simp
        rw [toObjectInfo_known (digests.2 _ member), InfoOf, known, found]
        constructor
        · exact fun same => .inr ⟨rfl, same⟩
        · rintro (rfl | ⟨-, same⟩)
          · cases known
          · exact same

theorem infoOf_of_described (allKnown : AllKnown replacements result)
    (isPart : IsArtifactOf result artifact)
    (written : serializeArtifactDescription doubleText sha replacements (.artifact artifact) =
      .ok json) : ∃ info, InfoOf replacements artifact info := by
  cases known : artifact.isKnown with
  | true =>
    cases artifact with
    | known hash size type => exact ⟨⟨hash, size, type⟩, .inl rfl⟩
    | _ => cases known
  | false =>
    cases replacements with
    | nil =>
      have isKnown := allKnown rfl artifact isPart
      rw [known] at isKnown
      cases isKnown
    | cons first rest =>
      unfold serializeArtifactDescription at written
      simp only [List.isEmpty_cons, false_eq_true, if_false, known] at written
      cases found : List.lookup artifact (first :: rest) with
      | none =>
        rw [found] at written
        cases written
      | some info => exact ⟨info, .inr ⟨known, found⟩⟩

theorem described_of_infoOf {info : ObjectInfo} (recorded : InfoOf replacements artifact info) :
    ∃ json, serializeArtifactDescription doubleText sha replacements (.artifact artifact) =
      .ok json := by
  cases replacements with
  | nil => exact ⟨_, serializeArtifactDescription_plain artifact⟩
  | cons first rest =>
    unfold serializeArtifactDescription
    simp only [List.isEmpty_cons, false_eq_true, if_false]
    rcases recorded with rfl | ⟨unknown, found⟩
    · exact ⟨_, rfl⟩
    · rw [unknown, found]
      exact ⟨_, rfl⟩

/-! ## Stages -/

/-- The descriptions of the artifacts in a stage. -/
def DescribesStage (doubleText : Double → Str) (sha : Str → Str) (replacements : Replacements)
    (fields : List (Str × Expr)) (entries : List (Str × JsonValue)) : Prop :=
  ∀ json, json ∈ entries.map snd ↔ ∃ artifact, .artifact artifact ∈ fields.map snd ∧
    serializeArtifactDescription doubleText sha replacements (.artifact artifact) = .ok json

theorem DescribesStage.cons {fields : List (Str × Expr)} {entries : List (Str × JsonValue)}
    (describes : DescribesStage doubleText sha replacements fields entries) (key : Str)
    (written : serializeArtifactDescription doubleText sha replacements (.artifact artifact) =
      .ok json) : DescribesStage doubleText sha replacements ((key, .artifact artifact) :: fields)
      ((key, json) :: entries) := by
  intro other
  rw [map_cons, mem_cons, describes]
  constructor
  · rintro (rfl | ⟨inner, member, same⟩)
    · exact ⟨artifact, mem_cons_self, written⟩
    · exact ⟨inner, mem_cons_of_mem _ member, same⟩
  · rintro ⟨inner, member, same⟩
    rw [map_cons, mem_cons] at member
    cases member with
    | inl here =>
      cases here
      rw [written] at same
      exact .inl (ok.inj same).symm
    | inr later => exact .inr ⟨inner, later, same⟩

theorem describesStage_of_written {expr : Expr} (stage : IsStage expr)
    (written : serializeArtifactMap doubleText sha replacements expr = .ok json) :
    ∃ fields entries, expr = .map fields ∧
      (∀ field ∈ fields, ∃ artifact, field.2 = .artifact artifact) ∧ json = .object entries ∧
      DescribesStage doubleText sha replacements fields entries := by
  obtain ⟨fields, rfl, artifacts⟩ := stage
  refine ⟨fields, ?_⟩
  cases replacements with
  | nil =>
    have views : ∃ entries, (viewFields doubleText sha fields).all = some entries ∧
        DescribesStage doubleText sha [] fields entries := by
      clear written
      induction fields with
      | nil => exact ⟨[], rfl, fun json => by simp⟩
      | cons field rest step =>
        obtain ⟨key, value⟩ := field
        obtain ⟨artifact, rfl⟩ := artifacts _ mem_cons_self
        obtain ⟨entries, shown, describes⟩ := step fun field member =>
          artifacts field (mem_cons_of_mem _ member)
        refine ⟨(key, artifact.toJson) :: entries, ?_, describes.cons key rfl⟩
        simp [viewFields, view, View.ofJson, shown]
    obtain ⟨entries, shown, describes⟩ := views
    have asJson : (Expr.map fields).toJson doubleText sha .serializeAll = some (.object entries) := by
      simp [Expr.toJson, View.json, view, shown]
    simp only [serializeArtifactMap, List.isEmpty_nil, if_true, asJson, orTerminate] at written
    cases written
    exact ⟨entries, rfl, artifacts, rfl, describes⟩
  | cons first others =>
    obtain ⟨entries, inside, rest⟩ := ok_of_bind written
    cases rest
    refine ⟨entries, rfl, artifacts, rfl, ?_⟩
    clear written
    induction fields generalizing entries with
    | nil =>
      cases inside
      exact fun json => by simp
    | cons field rest step =>
      obtain ⟨key, value⟩ := field
      obtain ⟨artifact, rfl⟩ := artifacts _ mem_cons_self
      obtain ⟨json, described, inside⟩ := ok_of_bind inside
      obtain ⟨more, later, inside⟩ := ok_of_bind inside
      cases inside
      exact (step (forall_mem_cons.mp artifacts).2 more
        later).cons key described

theorem scan_stage (digests : HasDigests hashType replacements result)
    (allKnown : AllKnown replacements result) {expr : Expr} (stage : IsStage expr)
    (isPart : ∀ artifact, Occurs expr (.artifact artifact) → IsArtifactOf result artifact)
    (written : serializeArtifactMap doubleText sha replacements expr = .ok json) :
    ∃ infos, scanArtifactMap hashType json = some infos ∧ ∀ info, info ∈ infos ↔
      ∃ artifact, Occurs expr (.artifact artifact) ∧ InfoOf replacements artifact info := by
  obtain ⟨fields, entries, rfl, artifacts, rfl, describes⟩ :=
    describesStage_of_written stage written
  have described : ∀ entry ∈ entries, ∃ artifact, Occurs (.map fields) (.artifact artifact) ∧
      serializeArtifactDescription doubleText sha replacements (.artifact artifact) =
        .ok entry.2 := by
    intro entry member
    obtain ⟨artifact, inside, same⟩ := (describes _).mp (mem_map_of_mem member)
    exact ⟨artifact, (among_stage artifacts).mpr inside, same⟩
  obtain ⟨infos, scanned, members⟩ := @mapM_of_forall _ _
    (fun entry : Str × JsonValue => toObjectInfo hashType entry.2) entries (by
      intro entry member
      obtain ⟨artifact, occurs, same⟩ := described entry member
      obtain ⟨info, recorded⟩ := infoOf_of_described allKnown (isPart artifact occurs) same
      exact ⟨info, (toObjectInfo_described digests allKnown (isPart artifact occurs) same info).mpr
        recorded⟩)
  refine ⟨infos, scanned, fun info => ?_⟩
  rw [members]
  constructor
  · rintro ⟨entry, member, read⟩
    obtain ⟨artifact, occurs, same⟩ := described entry member
    exact ⟨artifact, occurs,
      (toObjectInfo_described digests allKnown (isPart artifact occurs) same info).mp read⟩
  · rintro ⟨artifact, occurs, recorded⟩
    -- what is recorded of an artifact of the stage has been written
    have inside := (among_stage artifacts).mp occurs
    obtain ⟨json, same⟩ := @described_of_infoOf doubleText sha _ _ _ recorded
    obtain ⟨entry, member, rfl⟩ := mem_map.mp ((describes json).mpr ⟨artifact, inside, same⟩)
    exact ⟨entry, member,
      (toObjectInfo_described digests allKnown (isPart artifact occurs) same info).mpr recorded⟩

/-! ## The table -/

variable {tables : Tables}

variable {roots : List Expr}

theorem description_of_grows (collisionFree : CollisionFree sha) (doubles : IsDoubleText doubleText)
    (grows : Grows doubleText sha replacements roots ⟨[], [], [], []⟩ tables) :
    ∀ entry ∈ tables.nodes, ∀ artifact,
      (Expr.artifact artifact).toIdentifier doubleText sha = some entry.1 →
      serializeArtifactDescription doubleText sha replacements (.artifact artifact) =
        .ok entry.2 := by
  intro entry member artifact identified
  cases written_of_grows collisionFree doubles grows entry member artifact identified with
  | inl impossible => cases impossible
  | inr new => exact new.2

theorem found_of_listed (grows : Grows doubleText sha replacements roots ⟨[], [], [], []⟩ tables) :
    ∀ id ∈ tables.artifacts, (find id tables.nodes).isSome = true := by
  induction grows with
  | refl => exact fun _ impossible => nomatch impossible
  | tail _ step before =>
    have stays := fun id => @Grows.find_isSome _ _ id doubleText sha replacements roots
      (.single step)
    intro id listed
    cases step with
    | node _ _ _ | result _ _ _ | entry _ _ _ _ _ _ _ => exact stays id (before id listed)
    | artifact _ _ _ _ =>
      cases mem_append.mp listed with
      | inl old => exact stays id (before id old)
      | inr new =>
        rw [mem_singleton.mp new, find_cons, if_pos rfl]
        rfl

theorem eq_of_occurs_artifact {part : Expr} (occurs : Occurs (.artifact artifact) part) :
    part = .artifact artifact := by
  cases Relation.ReflTransGen.cases_head occurs with
  | inl same => exact same.symm
  | inr first =>
    obtain ⟨_, none, -⟩ := first
    cases none

theorem listed_of_found {root : Expr} (unconflated : Unconflated doubleText sha root)
    (grows : Grows doubleText sha replacements [root] ⟨[], [], [], []⟩ tables) :
    ∀ expr, Among [root] expr → ∀ id, expr.toIdentifier doubleText sha = some id →
      (find id tables.nodes).isSome = true → ∀ artifact, Occurs expr (.artifact artifact) →
      ∃ listed ∈ tables.artifacts,
        (Expr.artifact artifact).toIdentifier doubleText sha = some listed := by
  induction grows with
  | refl => exact fun _ _ _ _ absurd' => nomatch absurd'
  | tail _ step before =>
    intro expr among id identified found artifact occurs
    cases step with
    | node _ _ _ | result _ _ _ => exact before expr among id identified found artifact occurs
    | @artifact other key json amongOther _ identifiedOther _ =>
      simp only at found
      rw [find_cons] at found
      split at found
      · next same =>
        subst same
        -- an expression with the hash of an artifact has no other artifacts
        have inside := unconflated expr _ among amongOther key identified identifiedOther artifact
          occurs
        cases eq_of_occurs_artifact inside
        exact ⟨key, mem_append_right _ (mem_singleton_self key), identifiedOther⟩
      · obtain ⟨listed, member, same⟩ := before expr among id identified found artifact occurs
        exact ⟨listed, mem_append_left _ member, same⟩
    | @entry other key json amongOther identifiedOther isEntry written _ _ _ =>
      simp only at found
      rw [find_cons] at found
      split at found
      · next same =>
        subst same
        have inside := unconflated expr other among amongOther key identified identifiedOther
          artifact occurs
        cases Relation.ReflTransGen.cases_head inside with
        | inl itself =>
          subst itself
          exact absurd rfl (group_of_isEntry isEntry)
        | inr first =>
          -- the part that contains the artifact was written before
          obtain ⟨part, direct, later⟩ := first
          obtain ⟨partId, identifiedPart, foundPart⟩ := written part direct
          obtain ⟨above, member, occursOther⟩ := amongOther
          exact before part ⟨above, member, occursOther.tail direct⟩ partId identifiedPart foundPart
            artifact later
      · exact before expr among id identified found artifact occurs

theorem scan_provides (collisionFree : CollisionFree sha) (doubles : IsDoubleText doubleText)
    (digests : HasDigests hashType replacements result) (allKnown : AllKnown replacements result)
    (unconflated : Unconflated doubleText sha result.provides)
    (written : serializeProvidesMap doubleText sha replacements result.provides = .ok json) :
    ∃ infos, scanProvidesMap hashType json = some infos ∧ ∀ info, info ∈ infos ↔
      ∃ artifact, Occurs result.provides (.artifact artifact) ∧
        InfoOf replacements artifact info := by
  obtain ⟨⟨entry, tables⟩, serialized, rest⟩ := ok_of_bind written
  cases rest
  have wrote := wrote_of_serializeExpression _ serialized
  have isPart : ∀ artifact, Occurs result.provides (.artifact artifact) →
      IsArtifactOf result artifact := fun artifact occurs => ⟨_, by simp, occurs⟩
  -- each identifier that is listed leads to the description of an artifact
  have described : ∀ id ∈ tables.artifacts, ∃ artifact json,
      Occurs result.provides (.artifact artifact) ∧
      (Expr.artifact artifact).toIdentifier doubleText sha = some id ∧
      find id tables.nodes = some json ∧
      serializeArtifactDescription doubleText sha replacements (.artifact artifact) = .ok json := by
    intro id listed
    obtain ⟨json, found⟩ := isSome_iff_exists.mp (found_of_listed wrote.2.2 id listed)
    rcases described_of_grows wrote.2.2 listed with
      none | ⟨artifact, _, ⟨root, member, occurs⟩, identified, -⟩
    · cases none
    · rw [mem_singleton.mp member] at occurs
      exact ⟨artifact, json, occurs, identified, found,
        description_of_grows collisionFree doubles wrote.2.2 (id, json) (mem_of_find found) artifact
          identified⟩
  have scanned : scanProvidesMap hashType (.object [(lit "entry", .string entry),
      (lit "nodes", .object (emplaceAll tables.nodes [])),
      (lit "provided_artifacts", jsonStrings tables.artifacts),
      (lit "provided_nodes", jsonStrings tables.targetNodes),
      (lit "provided_results", jsonStrings tables.results)]) =
      (tables.artifacts.map Json.string).mapM
        (scanProvided hashType (.object (emplaceAll tables.nodes []))) := by
    simp [scanProvidesMap, jsonField, find_cons, lit_inj, jsonStrings, jsonElements]
  have read : ∀ id json, find id tables.nodes = some json →
      scanProvided hashType (.object (emplaceAll tables.nodes [])) (.string id) =
        toObjectInfo hashType json := by
    intro id json found
    simp [scanProvided, found]
  rw [scanned]
  obtain ⟨infos, mapped, members⟩ := @mapM_of_forall _ _
    (scanProvided hashType (.object (emplaceAll tables.nodes [])))
    (tables.artifacts.map Json.string) (by
      intro item member
      obtain ⟨id, listed, rfl⟩ := mem_map.mp member
      obtain ⟨artifact, json, occurs, -, found, same⟩ := described id listed
      obtain ⟨info, recorded⟩ := infoOf_of_described allKnown (isPart artifact occurs) same
      refine ⟨info, ?_⟩
      rw [read id json found]
      exact (toObjectInfo_described digests allKnown (isPart artifact occurs) same info).mpr
        recorded)
  refine ⟨infos, mapped, fun info => ?_⟩
  rw [members]
  constructor
  · rintro ⟨item, member, same⟩
    obtain ⟨id, listed, rfl⟩ := mem_map.mp member
    obtain ⟨artifact, json, occurs, -, found, written⟩ := described id listed
    rw [read id json found] at same
    exact ⟨artifact, occurs,
      (toObjectInfo_described digests allKnown (isPart artifact occurs) written info).mp same⟩
  · rintro ⟨artifact, occurs, recorded⟩
    obtain ⟨id, listed, identified⟩ := listed_of_found unconflated wrote.2.2 _ (among_self _) entry
      wrote.1 wrote.2.1 artifact occurs
    obtain ⟨json, found⟩ := isSome_iff_exists.mp (found_of_listed wrote.2.2 id listed)
    have written := description_of_grows collisionFree doubles wrote.2.2 (id, json)
      (mem_of_find found) artifact identified
    refine ⟨.string id, mem_map_of_mem listed, ?_⟩
    rw [read id json found]
    exact (toObjectInfo_described digests allKnown (isPart artifact occurs) written info).mpr
      recorded

/-! ## Entries -/

theorem fields_of_entry (implied : List Str) (artifacts provides runfiles : JsonValue) :
    let desc := withImplied implied (.object [(lit "artifacts", artifacts),
      (lit "provides", provides), (lit "runfiles", runfiles)])
    jsonField desc "artifacts" = some artifacts ∧ jsonField desc "provides" = some provides ∧
      jsonField desc "runfiles" = some runfiles ∧
      jsonField desc "implied export targets" =
        if implied.isEmpty then none else some (.array (implied.map .string)) := by
  unfold withImplied
  simp only
  split <;> simp [jsonField, find_cons, lit_inj]

theorem isArtifactOf_iff (artifact : ArtifactDescription) : IsArtifactOf result artifact ↔
    Occurs result.artifactStage (.artifact artifact) ∨ Occurs result.runfiles (.artifact artifact) ∨
      Occurs result.provides (.artifact artifact) := by
  simp [IsArtifactOf, Among]

theorem parts_of_created
    (created : fromTarget doubleText sha result implied replacements = some (some desc)) :
    ∃ artifacts provides runfiles,
      serializeArtifactMap doubleText sha replacements result.artifactStage = .ok artifacts ∧
      serializeArtifactMap doubleText sha replacements result.runfiles = .ok runfiles ∧
      serializeProvidesMap doubleText sha replacements result.provides = .ok provides ∧
      desc = withImplied implied (.object [(lit "artifacts", artifacts),
        (lit "provides", provides), (lit "runfiles", runfiles)]) := by
  obtain ⟨written, replaced, same⟩ := map_eq_some_iff.mp created
  obtain ⟨json, rfl, rfl⟩ := map_eq_some_iff.mp same
  have serialized : serialize doubleText sha replacements result = .ok json := by
    unfold replaceNonKnownAndToJson at replaced
    split at replaced <;> cases replaced
    assumption
  obtain ⟨artifacts, staged, serialized⟩ := ok_of_bind serialized
  obtain ⟨runfiles, run, serialized⟩ := ok_of_bind serialized
  obtain ⟨provides, provided, serialized⟩ := ok_of_bind serialized
  cases serialized
  exact ⟨artifacts, provides, runfiles, staged, run, provided, rfl⟩

theorem lists_of_unconflated (collisionFree : CollisionFree sha) (doubles : IsDoubleText doubleText)
    (stage : IsStage result.artifactStage) (run : IsStage result.runfiles)
    (digests : HasDigests hashType replacements result) (allKnown : AllKnown replacements result)
    (unconflated : Unconflated doubleText sha result.provides)
    (created : fromTarget doubleText sha result implied replacements = some (some desc)) :
    Lists hashType replacements result desc := by
  obtain ⟨artifacts, provides, runfiles, staged, ran, provided, rfl⟩ := parts_of_created created
  obtain ⟨hasArtifacts, hasProvides, hasRunfiles, -⟩ :=
    fields_of_entry implied artifacts provides runfiles
  obtain ⟨first, scanned, inStage⟩ := scan_stage digests allKnown stage
    (fun artifact occurs => (isArtifactOf_iff artifact).mpr (.inl occurs)) staged
  obtain ⟨second, scanned', inRun⟩ := scan_stage digests allKnown run
    (fun artifact occurs => (isArtifactOf_iff artifact).mpr (.inr (.inl occurs))) ran
  obtain ⟨third, scanned'', inProvides⟩ :=
    scan_provides collisionFree doubles digests allKnown unconflated provided
  refine ⟨first ++ second ++ third, ?_, fun info => ?_⟩
  · simp only [toArtifacts, hasArtifacts, hasProvides, hasRunfiles, bind_eq_bind,
      bind_some, scanned, scanned', scanned'']
  · simp only [mem_append, inStage, inRun, inProvides, isArtifactOf_iff, or_and_right,
      exists_or, or_assoc]

theorem mem_toImplied
    (created : fromTarget doubleText sha result implied replacements = some (some desc)) (key : Str) :
    key ∈ toImplied desc ↔ key ∈ implied := by
  obtain ⟨artifacts, provides, runfiles, -, -, -, rfl⟩ := parts_of_created created
  obtain ⟨-, -, -, hasImplied⟩ := fields_of_entry implied artifacts provides runfiles
  have leading : ∀ list : List Str, leadingStrings (list.map Json.string) = list := by
    intro list
    induction list with
    | nil => rfl
    | cons first rest step => rw [map_cons, leadingStrings, step]
  unfold toImplied
  rw [hasImplied]
  cases implied with
  | nil => simp
  | cons first rest =>
    simp only [List.isEmpty_cons, false_eq_true, if_false, jsonElements, leading]
    rw [mem_keys, find_emplaceAll, find_nil, none_or, ← mem_keys, map_map]
    simp

/-! ## Uplinks -/

section Uplinks

variable (protocol : Protocol Str) (parse : Str → Option JsonValue)

variable {rank : Str → Nat}

/-- An artifact is stored, a tree with all it refers to. -/
def HoldsInfo (cas : LocalCas Str) (info : ObjectInfo) : Prop :=
  if info.type = .tree then ClosedTree protocol cas info.hash else HasBlob cas info.hash

variable (hashType)

/-- A key file names the blob of an entry. -/
structure Names (file hash content : Str) (desc : JsonValue) : Prop where
  named : (readObjectInfo hashType file).map ObjectInfo.hash = some hash
  own : protocol.hashes.blob content = hash
  parsed : parse content = some desc

/-- An entry is stored with its artifacts, and the keys of the implied entries are visible. -/
def HoldsEntry (cas : LocalCas Str) (visible : Str → Option Str) (key file : Str) : Prop :=
  ∃ hash content desc infos, Names hashType protocol parse file hash content desc ∧
    BlobStored protocol cas content ∧ toArtifacts hashType desc = some infos ∧
    (∀ info ∈ infos, HoldsInfo protocol cas info) ∧
    ∀ implied ∈ toImplied desc, implied ≠ key → (visible implied).isSome

/-- The generations are complete, and the youngest one has all that a visible key refers to. -/
structure Keeps (state : TcState) : Prop where
  intact : AllIntact protocol state.gens
  entries : ∀ key file, state.keys 0 key = some file →
    HoldsEntry hashType protocol parse (state.gens 0) (state.keys 0) key file

/-- What an uplink does to the generations. -/
structure Uplinks (before after : TcState) : Prop where
  leaves : Leaves protocol before.gens after.gens
  keeps : Keeps hashType protocol parse after
  visible : ∀ key, (before.keys 0 key).isSome → (after.keys 0 key).isSome
  older : ∀ j, j ≠ 0 → after.keys j = before.keys j

/-- An entry implies another one. -/
def Implies (keys : Str → Option Str) (key implied : Str) : Prop :=
  ∃ file hash content desc, keys key = some file ∧
    Names hashType protocol parse file hash content desc ∧
    implied ∈ toImplied desc ∧ implied ≠ key

variable {hashType protocol parse}

variable {after state : TcState}

theorem Uplinks.refl (keeps : Keeps hashType protocol parse state) :
    Uplinks hashType protocol parse state state :=
  ⟨.refl keeps.intact, keeps, fun _ same => same, fun _ _ => rfl⟩

theorem Uplinks.trans {first second third : TcState}
    (front : Uplinks hashType protocol parse first second)
    (back : Uplinks hashType protocol parse second third) :
    Uplinks hashType protocol parse first third :=
  ⟨front.leaves.trans back.leaves, back.keeps, fun key same => back.visible key (front.visible key same),
    fun j older => (back.older j older).trans (front.older j older)⟩

theorem HoldsInfo.grows (ranked : Ranked protocol rank) {before after : LocalCas Str}
    (intact : Intact protocol after) {info : ObjectInfo} (holds : HoldsInfo protocol before info)
    (grows : Grows before after) : HoldsInfo protocol after info := by
  unfold HoldsInfo at holds ⊢
  split
  · next isTree =>
    rw [if_pos isTree] at holds
    exact ClosedTree.grows ranked intact holds grows
  · next isBlob =>
    rw [if_neg isBlob] at holds
    exact holds.grows grows

variable {content file hash : Str}

theorem HoldsEntry.grows (ranked : Ranked protocol rank) {before after : LocalCas Str}
    (intact : Intact protocol after) {visible more : Str → Option Str}
    (holds : HoldsEntry hashType protocol parse before visible key file)
    (grows : Grows before after) (stays : ∀ key, (visible key).isSome → (more key).isSome) :
    HoldsEntry hashType protocol parse after more key file := by
  obtain ⟨hash, content, desc, infos, names, stored, listed, all, implied⟩ := holds
  exact ⟨hash, content, desc, infos, names, blobStored_grows stored grows, listed,
    fun info member => (all info member).grows ranked intact grows,
    fun other member differs => stays other (implied other member differs)⟩

variable {gens : Generations Str}

theorem Uplinks.ofLeaves (ranked : Ranked protocol rank)
    (keeps : Keeps hashType protocol parse state) (leaves : Leaves protocol state.gens gens) :
    Uplinks hashType protocol parse state { state with gens } where
  leaves := leaves
  keeps := ⟨leaves.intact, fun key file visible => (keeps.entries key file visible).grows ranked
    (leaves.intact 0) (leaves.grow 0) fun _ same => same⟩
  visible _ same := same
  older _ _ := rfl

theorem readEntry_spec (ranked : Ranked protocol rank) (i : Nat) (key : Str) {state : TcState}
    (keeps : Keeps hashType protocol parse state) :
    Uplinks hashType protocol parse state (readEntry protocol hashType parse i key state).2 ∧
      (readEntry protocol hashType parse i key state).2.keys = state.keys ∧
      ∀ file hash desc, (readEntry protocol hashType parse i key state).1 = some (file, hash, desc) →
        state.keys i key = some file ∧ ∃ content, Names hashType protocol parse file hash content desc
    := by
  unfold readEntry
  cases found : state.keys i key with
  | none => exact ⟨.refl keeps, rfl, fun _ _ _ absurd' => nomatch absurd'⟩
  | some file =>
    cases read : readObjectInfo hashType file with
    | none =>
      simp only [read]
      exact ⟨.refl keeps, trivial, fun _ _ _ absurd' => nomatch absurd'⟩
    | some info =>
      simp only [read]
      rcases blobPath_cases keeps.intact i info.hash false with
        ⟨content, after, called, own, leaves⟩ | ⟨called, -⟩
      · rw [called]
        refine ⟨.ofLeaves ranked keeps leaves, trivial, fun other hash desc same => ?_⟩
        obtain ⟨parsed, isParsed, same⟩ := map_eq_some_iff.mp same
        cases same
        exact ⟨rfl, content, by rw [read]; rfl, own, isParsed⟩
      · rw [called]
        exact ⟨.ofLeaves ranked keeps (.refl keeps.intact), trivial,
          fun _ _ _ absurd' => nomatch absurd'⟩

variable {ok : Bool}

theorem allEnding_spec {call : Str → TcState → Option (Bool × TcState)}
    (each : ∀ key state ok after, Keeps hashType protocol parse state →
      call key state = some (ok, after) → Uplinks hashType protocol parse state after ∧
        (ok = true → (after.keys 0 key).isSome))
    (keys : List Str) (keeps : Keeps hashType protocol parse state)
    (run : allEnding call keys state = some (ok, after)) :
    Uplinks hashType protocol parse state after ∧
      (ok = true → ∀ key ∈ keys, (after.keys 0 key).isSome) := by
  induction keys generalizing state with
  | nil =>
    cases run
    exact ⟨.refl keeps, fun _ _ none => nomatch none⟩
  | cons key rest step =>
    rw [allEnding] at run
    cases called : call key state with
    | none => simp [called] at run
    | some result =>
      obtain ⟨success, next⟩ := result
      have here := each key state success next keeps called
      rw [called] at run
      cases success with
      | false =>
        cases run
        exact ⟨here.1, fun absurd' => nomatch absurd'⟩
      | true =>
        have later := step here.1.keeps run
        refine ⟨here.1.trans later.1, fun all other member => ?_⟩
        cases mem_cons.mp member with
        | inl same => exact same ▸ later.1.visible key (here.2 rfl)
        | inr inRest => exact later.2 all other inRest

theorem uplinkArtifact_spec (ranked : Ranked protocol rank) (deep : ∀ hash, rank hash < depth hash)
    (i : Nat) (info : ObjectInfo) (intact : AllIntact protocol gens) :
    Leaves protocol gens (uplinkArtifact protocol depth i info gens).2 ∧
      ((uplinkArtifact protocol depth i info gens).1 = true →
        HoldsInfo protocol ((uplinkArtifact protocol depth i info gens).2 0) info) := by
  unfold uplinkArtifact HoldsInfo
  split
  · exact localUplinkTree_spec ranked intact 0 i (deep info.hash) false
  · exact localUplinkBlob_spec intact 0 i info.hash _ false false

theorem uplinkContent_spec (ranked : Ranked protocol rank) (deep : ∀ hash, rank hash < depth hash)
    (i : Nat) (names : Names hashType protocol parse file hash content desc)
    (keeps : Keeps hashType protocol parse state)
    (implied : ∀ other ∈ toImplied desc, other ≠ key → (state.keys 0 other).isSome)
    (run : uplinkContent protocol hashType depth i key file hash desc state = (ok, after)) :
    Uplinks hashType protocol parse state after ∧ (ok = true → after.keys 0 key = some file) := by
  unfold uplinkContent at run
  cases listed : toArtifacts hashType desc with
  | none =>
    rw [listed] at run
    cases run
    exact ⟨.refl keeps, fun absurd' => nomatch absurd'⟩
  | some infos =>
    have looped := @uplinkAll_spec _ protocol state.gens _ (uplinkArtifact protocol depth i)
      (fun info cas => HoldsInfo protocol cas info) infos
      (fun _ _ _ intact holds grows => holds.grows ranked intact grows)
      (fun info _ _ intact => uplinkArtifact_spec ranked deep i info intact) keeps.intact
    rw [listed] at run
    simp only at run
    cases called : allOf (uplinkArtifact protocol depth i) infos state.gens with
    | mk all gens =>
      rw [called] at looped run
      cases all with
      | false =>
        cases run
        exact ⟨.ofLeaves ranked keeps looped.1, fun absurd' => nomatch absurd'⟩
      | true =>
        have blob := localUplinkBlob_spec looped.1.intact 0 i hash false false false
        simp only at run
        cases calledBlob : localUplinkBlob protocol.hashes 2 i hash false false false gens with
        | mk stored last =>
          rw [show 0 + 2 = 2 from rfl, calledBlob] at blob
          rw [calledBlob] at run
          have leaves := looped.1.trans blob.1
          cases stored with
          | false =>
            cases run
            exact ⟨.ofLeaves ranked keeps leaves, fun absurd' => nomatch absurd'⟩
          | true =>
            cases run
            have visible : ∀ other, (state.keys 0 other).isSome →
                (update (state.keys 0) key (some file) other).isSome := by
              intro other same
              by_cases here : other = key
              · rw [here, update_self]
                rfl
              · rw [update_of_ne here]
                exact same
            refine ⟨⟨leaves, ⟨leaves.intact, fun other otherFile found => ?_⟩, ?_, ?_⟩, fun _ => ?_⟩
            · simp only [update_self] at found ⊢
              by_cases here : other = key
              · subst here
                rw [update_self] at found
                cases found
                obtain ⟨inside, own, blobStored⟩ := blobStored_of_hasBlob (blob.1.intact 0) (blob.2 rfl)
                rw [protocol.hashes.blob_injective (own.trans names.own.symm)] at blobStored
                exact ⟨hash, content, desc, infos, names, blobStored, listed,
                  fun info member => (looped.2 rfl info member).grows ranked (blob.1.intact 0)
                    (blob.1.grow 0),
                  fun implied' member differs => visible implied' (implied implied' member differs)⟩
              · rw [update_of_ne here] at found
                exact (keeps.entries other otherFile found).grows ranked (leaves.intact 0)
                  (leaves.grow 0) visible
            · intro other same
              simp only [update_self]
              exact visible other same
            · intro j older
              exact update_of_ne older _ _
            · simp only [update_self]

theorem localUplinkEntry_spec (ranked : Ranked protocol rank)
    (deep : ∀ hash, rank hash < depth hash) (i fuel : Nat)
    (keeps : Keeps hashType protocol parse state)
    (run : localUplinkEntry protocol hashType parse depth i fuel key state = some (ok, after)) :
    Uplinks hashType protocol parse state after ∧ (ok = true → (after.keys 0 key).isSome) ∧
      (ok = true → state.keys 0 key = none → after.keys 0 key = state.keys i key) := by
  induction fuel generalizing key state ok after with
  | zero => cases run
  | succ fuel step =>
    rw [localUplinkEntry] at run
    split at run
    · next visible =>
      cases run
      refine ⟨.refl keeps, fun _ => visible, fun _ none => ?_⟩
      rw [none] at visible
      cases visible
    · have read := @readEntry_spec hashType protocol parse rank ranked i key state keeps
      cases called : readEntry protocol hashType parse i key state with
      | mk entry next =>
        rw [called] at read run
        cases entry with
        | none =>
          cases run
          exact ⟨read.1, fun absurd' => (nomatch absurd'), fun absurd' => (nomatch absurd')⟩
        | some entry =>
          obtain ⟨file, hash, desc⟩ := entry
          obtain ⟨found, content, names⟩ := read.2.2 file hash desc rfl
          dsimp only at run
          cases looped : allEnding (localUplinkEntry protocol hashType parse depth i fuel)
              ((toImplied desc).filter (· ≠ key)) next with
          | none =>
            rw [looped] at run
            cases run
          | some result =>
            obtain ⟨all, later⟩ := result
            -- the implied entries come first
            have implied := allEnding_spec (fun key state ok after keeps called =>
              have spec := step keeps called
              ⟨spec.1, spec.2.1⟩) _ read.1.keeps looped
            rw [looped] at run
            cases all with
            | false =>
              cases run
              exact ⟨read.1.trans implied.1, fun absurd' => (nomatch absurd'),
                fun absurd' => (nomatch absurd')⟩
            | true =>
              have content := uplinkContent_spec ranked deep i names implied.1.keeps
                (fun other member differs => implied.2 rfl other
                  (mem_filter.mpr ⟨member, by simpa using differs⟩)) (some.inj run)
              refine ⟨(read.1.trans implied.1).trans content.1, fun success => ?_,
                fun success _ => (content.2 success).trans found.symm⟩
              rw [content.2 success]
              rfl

/-! ## The end of an uplink -/

theorem allEnding_isSome {Item State : Type} {call : Item → State → Option (Bool × State)}
    {holds : State → Prop}
    (keeps : ∀ item state ok after, holds state → call item state = some (ok, after) → holds after)
    {items : List Item} (ends : ∀ item ∈ items, ∀ state, holds state → (call item state).isSome)
    {state : State} (start : holds state) : (allEnding call items state).isSome := by
  induction items generalizing state with
  | nil => rfl
  | cons item rest step =>
    obtain ⟨⟨ok, next⟩, called⟩ := isSome_iff_exists.mp (ends item mem_cons_self state start)
    rw [allEnding, called]
    cases ok with
    | false => rfl
    | true =>
      exact step (forall_mem_cons.mp ends).2
        (keeps item state true next start called)

theorem exists_bound {Item : Type} {holds : Item → Nat → Prop} {items : List Item}
    (each : ∀ item ∈ items, ∃ bound, ∀ fuel, bound ≤ fuel → holds item fuel) :
    ∃ bound, ∀ item ∈ items, ∀ fuel, bound ≤ fuel → holds item fuel := by
  induction items with
  | nil => exact ⟨0, fun _ none => nomatch none⟩
  | cons item rest step =>
    obtain ⟨first, here⟩ := each item mem_cons_self
    obtain ⟨others, later⟩ := step (forall_mem_cons.mp each).2
    refine ⟨max first others, fun other member fuel enough => ?_⟩
    cases mem_cons.mp member with
    | inl same => exact same ▸ here fuel (by omega)
    | inr inRest => exact later other inRest fuel (by omega)

theorem Names.unique {hash' content' : Str} {desc' : JsonValue}
    (names : Names hashType protocol parse file hash content desc)
    (names' : Names hashType protocol parse file hash' content' desc') :
    hash = hash' ∧ content = content' ∧ desc = desc' := by
  have sameHash := some.inj (names.named.symm.trans names'.named)
  subst sameHash
  have sameContent := protocol.hashes.blob_injective (names.own.trans names'.own.symm)
  subst sameContent
  exact ⟨rfl, rfl, some.inj (names.parsed.symm.trans names'.parsed)⟩

theorem localUplinkEntry_ends (ranked : Ranked protocol rank)
    (deep : ∀ hash, rank hash < depth hash) (i : Nat) {keys : Str → Option Str}
    (ends : Runs.Ends (Implies hashType protocol parse keys) key) :
    ∃ bound, ∀ fuel, bound ≤ fuel → ∀ state, Keeps hashType protocol parse state →
      state.keys i = keys →
      (localUplinkEntry protocol hashType parse depth i fuel key state).isSome := by
  induction ends with
  | intro key _ step =>
    by_cases youngest : i = 0
    · -- in the youngest generation itself there is nothing to do
      subst youngest
      refine ⟨1, fun fuel enough state _ _ => ?_⟩
      obtain ⟨fuel, rfl⟩ := Nat.exists_eq_add_of_le' enough
      rw [localUplinkEntry]
      split
      · rfl
      · next missing =>
        rw [readEntry, not_isSome_iff_eq_none.mp missing]
        rfl
    · have keepsKeys : ∀ fuel other state ok after,
          (Keeps hashType protocol parse state ∧ state.keys i = keys) →
          localUplinkEntry protocol hashType parse depth i fuel other state = some (ok, after) →
          Keeps hashType protocol parse after ∧ after.keys i = keys := by
        intro fuel other state ok after good called
        have spec := localUplinkEntry_spec ranked deep i fuel good.1 called
        exact ⟨spec.1.keeps, (spec.1.older i youngest).trans good.2⟩
      have loop : ∃ bound, ∀ fuel, bound ≤ fuel → ∀ file hash content desc,
          keys key = some file → Names hashType protocol parse file hash content desc →
          ∀ state, Keeps hashType protocol parse state → state.keys i = keys →
          (allEnding (localUplinkEntry protocol hashType parse depth i fuel)
            ((toImplied desc).filter (· ≠ key)) state).isSome := by
        by_cases named : ∃ file hash content desc, keys key = some file ∧
            Names hashType protocol parse file hash content desc
        · obtain ⟨file, hash, content, desc, found, names⟩ := named
          have each : ∀ other ∈ (toImplied desc).filter (· ≠ key),
              Implies hashType protocol parse keys key other := fun other member =>
            ⟨file, hash, content, desc, found, names, (mem_filter.mp member).1,
              by simpa using (mem_filter.mp member).2⟩
          obtain ⟨bound, all⟩ := exists_bound fun other member => step other (each other member)
          refine ⟨bound, fun fuel enough file' hash' content' desc' found' names' state keeps same =>
            ?_⟩
          cases found.symm.trans found'
          obtain ⟨-, -, rfl⟩ := names.unique names'
          exact allEnding_isSome (keepsKeys fuel)
            (fun other member state good => all other member fuel enough state good.1 good.2)
            ⟨keeps, same⟩
        · refine ⟨0, fun _ _ file hash content desc found names => ?_⟩
          exact absurd ⟨file, hash, content, desc, found, names⟩ named
      obtain ⟨bound, loop⟩ := loop
      refine ⟨bound + 1, fun fuel enough state keeps same => ?_⟩
      obtain ⟨fuel, rfl⟩ := Nat.exists_eq_add_of_le' (by omega : 1 ≤ fuel)
      rw [localUplinkEntry]
      split
      · rfl
      · have read := @readEntry_spec hashType protocol parse rank ranked i key state keeps
        cases called : readEntry protocol hashType parse i key state with
        | mk entry next =>
          rw [called] at read
          cases entry with
          | none => rfl
          | some entry =>
            obtain ⟨file, hash, desc⟩ := entry
            obtain ⟨found, content, names⟩ := read.2.2 file hash desc rfl
            have ended := loop fuel (by omega) file hash content desc (same ▸ found) names next
              read.1.keeps ((congrFun read.2.1 i).trans same)
            obtain ⟨⟨all, later⟩, looped⟩ := isSome_iff_exists.mp ended
            simp only [looped]
            cases all <;> rfl

end Uplinks

/-! ## Entries of results -/

/-- What is in the youngest generation when the key of an entry is visible. -/
structure Promoted (protocol : Protocol Str) (replacements : Replacements) (result : TargetResult)
    (implied : List Str) (key file hash : Str) (state : TcState) : Prop where
  visible : state.keys 0 key = some file
  entry : HasBlob (state.gens 0) hash
  artifacts : ∀ artifact info, IsArtifactOf result artifact → InfoOf replacements artifact info →
    HoldsInfo protocol (state.gens 0) info
  implied : ∀ other ∈ implied, other ≠ key → (state.keys 0 other).isSome

theorem promoted_of_visible {protocol : Protocol Str} {parse : Str → Option JsonValue}
    (created : fromTarget doubleText sha result implied replacements = some (some desc))
    (lists : Lists hashType replacements result desc) {file hash content : Str}
    (names : Names hashType protocol parse file hash content desc) {state : TcState}
    (keeps : Keeps hashType protocol parse state) (visible : state.keys 0 key = some file) :
    Promoted protocol replacements result implied key file hash state := by
  obtain ⟨hash', content', desc', infos, names', stored, listed, all, others⟩ :=
    keeps.entries key file visible
  obtain ⟨rfl, rfl, rfl⟩ := names.unique names'
  obtain ⟨infos', listed', members⟩ := lists
  cases listed.symm.trans listed'
  refine ⟨visible, names.own ▸ hasBlob_of_blobStored stored, fun artifact info isPart recorded => ?_,
    fun other member differs => ?_⟩
  · exact all info ((members info).mpr ⟨artifact, isPart, recorded⟩)
  · exact others other ((mem_toImplied created other).mpr member) differs

/-- The entry of a result lists exactly its artifacts; an uplink keeps every visible key complete,
promotes all these artifacts, the implied entries and the entry itself if it succeeds, and ends if
no entry implies itself by way of others. -/
theorem entry_keeps_artifacts (collisionFree : CollisionFree sha) (doubles : IsDoubleText doubleText)
    (stage : IsStage result.artifactStage) (run : IsStage result.runfiles)
    (digests : HasDigests hashType replacements result) (allKnown : AllKnown replacements result)
    (unconflated : Unconflated doubleText sha result.provides) {implied : List Str}
    {desc : JsonValue}
    (created : fromTarget doubleText sha result implied replacements = some (some desc)) :
    Lists hashType replacements result desc ∧
    ∀ (protocol : Protocol Str) (parse : Str → Option JsonValue) (rank depth : Str → Nat),
      Ranked protocol rank → (∀ hash, rank hash < depth hash) →
      ∀ (i : Nat) (key file hash content : Str) (state : TcState),
        Keeps hashType protocol parse state → state.keys i key = some file →
        Names hashType protocol parse file hash content desc →
        (state.keys 0 key = none ∨ state.keys 0 key = some file) →
        (∀ fuel ok after,
          localUplinkEntry protocol hashType parse depth i fuel key state = some (ok, after) →
          Keeps hashType protocol parse after ∧
            (ok = true → Promoted protocol replacements result implied key file hash after)) ∧
        ({key | (state.keys i key).isSome}.Finite →
          (∀ key, ¬ Relation.TransGen (Implies hashType protocol parse (state.keys i)) key key) →
          ∃ bound, ∀ fuel, bound ≤ fuel →
            (localUplinkEntry protocol hashType parse depth i fuel key state).isSome) := by
  have lists := lists_of_unconflated collisionFree doubles stage run digests allKnown unconflated
    created
  refine ⟨lists, fun protocol parse rank depth ranked deep i key file hash content state keeps found
    names youngest => ⟨fun fuel ok after called => ?_, fun finite acyclic => ?_⟩⟩
  · have spec := localUplinkEntry_spec ranked deep i fuel keeps called
    refine ⟨spec.1.keeps, fun success => ?_⟩
    have visible : after.keys 0 key = some file := by
      cases youngest with
      | inl missing => exact (spec.2.2 success missing).trans found
      | inr same =>
        cases fuel with
        | zero => cases called
        | succ fuel =>
          rw [localUplinkEntry, if_pos (by rw [same]; rfl)] at called
          cases called
          exact same
    exact promoted_of_visible created lists names spec.1.keeps visible
  · have withEntry : {key | ∃ other, Implies hashType protocol parse (state.keys i) key other} ⊆
        {key | (state.keys i key).isSome} := by
      rintro key ⟨other, file, hash, content, desc, found, -⟩
      exact isSome_iff_exists.mpr ⟨file, found⟩
    obtain ⟨bound, ends⟩ := localUplinkEntry_ends ranked deep i
      (Runs.ends_of_acyclic (finite.subset withEntry) acyclic key)
    exact ⟨bound, fun fuel enough => ends fuel enough state keeps rfl⟩

/-! ## Concrete entries -/

theorem mem_of_occurs {exprs : List Expr} (closed : ∀ whole ∈ exprs, ∀ part ∈ parts whole,
    part ∈ exprs) {root part : Expr} (start : root ∈ exprs) (occurs : Occurs root part) :
    part ∈ exprs := by
  induction occurs with
  | refl => exact start
  | tail _ direct before => exact closed _ before _ direct

/-- The hash of no object. -/
def zeros : Str := replicate 40 48

/-- A result with one known file. -/
def fileResult : TargetResult :=
  TargetResult.make (.map [(lit "out", .artifact (.known zeros 0 .file))]) (.map []) (.map [])

theorem eq_file (isPart : IsArtifactOf fileResult artifact) : artifact = .known zeros 0 .file := by
  obtain ⟨root, member, occurs⟩ := isPart
  have inside := @mem_of_occurs [.map [(lit "out", .artifact (.known zeros 0 .file))],
    .artifact (.known zeros 0 .file), .map []] (by simp [parts]) root (.artifact artifact) (by
      simp [fileResult, TargetResult.make] at member
      rcases member with rfl | rfl <;> simp) occurs
  simpa using inside

theorem file_listed : ∃ desc,
    fromTarget bitsText (digestsOf []) fileResult [] [] = some (some desc) ∧
      Lists .gitSHA1 [] fileResult desc := by
  have written : ((fromTarget bitsText (digestsOf []) fileResult [] []).bind id).isSome = true := by
    decide
  obtain ⟨desc, found⟩ := isSome_iff_exists.mp written
  obtain ⟨inner, created, rfl⟩ := bind_eq_some_iff.mp found
  refine ⟨desc, created, (entry_keeps_artifacts (digestsOf_collisionFree (by decide))
    bitsText_isDoubleText ⟨_, rfl, by simp⟩ ⟨_, rfl, by simp⟩ ⟨?_, by simp⟩ ?_ ?_ created).1⟩
  · intro artifact isPart
    rw [eq_file isPart]
    show ArtifactDescription.isDigest .gitSHA1 zeros = true
    decide
  · intro _ artifact isPart
    rw [eq_file isPart]
    rfl
  · rintro left right ⟨root, member, path⟩ - id - - artifact occurs
    have inside := @mem_of_occurs [.map []] (by simp [parts]) root (.artifact artifact) member
      (path.trans occurs)
    cases mem_singleton.mp inside

/-- A result that provides two results with the same hash, of which the second one has a tree. -/
def conflatedResult : TargetResult :=
  TargetResult.make (.map []) (.map [(lit "a", mapResult), (lit "b", treeResult)]) (.map [])

/-- What replaces the tree. -/
def treeInfo : ObjectInfo := ⟨zeros, 0, .tree⟩

theorem eq_tree (isPart : IsArtifactOf conflatedResult artifact) : artifact = .tree (lit "t") := by
  obtain ⟨root, member, occurs⟩ := isPart
  have inside := @mem_of_occurs [.map [(lit "a", mapResult), (lit "b", treeResult)], mapResult,
    treeResult, .map [], .map [(lit "x", .artifact (.tree (lit "t")))],
    .map [(lit "x", .map [(lit "data", .map [(lit "id", .string (lit "t"))]),
      (lit "type", .string (lit "TREE"))])],
    .map [(lit "data", .map [(lit "id", .string (lit "t"))]), (lit "type", .string (lit "TREE"))],
    .map [(lit "id", .string (lit "t"))], .string (lit "t"), .string (lit "TREE"),
    .artifact (.tree (lit "t"))] (by simp [parts, mapResult, treeResult]) root (.artifact artifact)
    (by
      simp [conflatedResult, TargetResult.make] at member
      rcases member with rfl | rfl <;> simp) occurs
  simpa [mapResult, treeResult] using inside

theorem tree_not_listed :
    ¬∀ (doubleText : Double → Str) (sha : Str → Str) (hashType : HashType)
      (replacements : Replacements) (result : TargetResult) (implied : List Str) (desc : JsonValue),
      CollisionFree sha → IsDoubleText doubleText → IsStage result.artifactStage →
      IsStage result.runfiles → HasDigests hashType replacements result →
      AllKnown replacements result →
      fromTarget doubleText sha result implied replacements = some (some desc) →
      Lists hashType replacements result desc := by
  intro always
  have written : ((fromTarget bitsText (digestsOf []) conflatedResult []
      [(.tree (lit "t"), treeInfo)]).bind fun desc => desc.bind (toArtifacts .gitSHA1)).map
        List.length = some 0 := by
    decide +kernel
  obtain ⟨none, found, isEmpty⟩ := map_eq_some_iff.mp written
  obtain ⟨inner, created, found⟩ := bind_eq_some_iff.mp found
  obtain ⟨desc, rfl, listed⟩ := bind_eq_some_iff.mp found
  obtain ⟨infos, listed', members⟩ := always bitsText (digestsOf []) .gitSHA1
    [(.tree (lit "t"), treeInfo)] conflatedResult [] desc (digestsOf_collisionFree (by decide))
    bitsText_isDoubleText ⟨_, rfl, by simp⟩ ⟨_, rfl, by simp⟩
    ⟨fun artifact isPart => by rw [eq_tree isPart]; trivial, fun entry member => by
      rw [mem_singleton.mp member]
      decide⟩ (fun absurd' => nomatch absurd') created
  cases listed.symm.trans listed'
  have isPart : IsArtifactOf conflatedResult (.tree (lit "t")) := by
    refine ⟨conflatedResult.provides, by simp, .head (b := treeResult) ?_ (.head
      (b := .map [(lit "x", .artifact (.tree (lit "t")))]) ?_ (.single ?_))⟩ <;>
      simp [conflatedResult, TargetResult.make, parts, treeResult]
  have inside := (members treeInfo).mpr ⟨_, isPart, .inr ⟨rfl, rfl⟩⟩
  rw [List.length_eq_zero_iff.mp isEmpty] at inside
  cases inside

end Jst.Verif.TargetCacheEntries
