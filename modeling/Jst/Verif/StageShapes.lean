import Jst.Target.Rules
import Jst.Verif.StageTrees
/-!
# The shape of stages

Where locations are normalised before they are checked, `tree_conflict` sees every clash. The names
of trees, overlays and generated files, and the locations of installed files, are taken as they are;
if these are in order, the stages of every target are.
-/
namespace Jst.Verif.StageShapes

open Jst.SortedMap Jst.Path Jst.Target Jst.Verif.StageTrees

variable {Artifact : Type}

variable {stage last : Stage Artifact} {target : Analysed Artifact}

/-- A location that is relative, normal, and does not lead upwards. -/
structure GoodKey (key : Str) : Prop where
  relative : isAbsolute key = false
  normal : toNormalPath key = key
  nonUpwards : (segments key).head? ≠ some up

/-- A stage whose locations are good, and of which none stands above another. -/
structure WellFormed (stage : Stage Artifact) : Prop where
  good : ∀ key ∈ stage.keys, GoodKey key
  apart : ∀ left ∈ stage.keys, ∀ right ∈ stage.keys, ¬Ancestor left right

/-- The stages of a target are well formed. -/
structure WellShaped (target : Analysed Artifact) : Prop where
  artifacts : WellFormed target.artifacts
  runfiles : WellFormed target.runfiles

section Normal

theorem lt_append (text : Str) (byte : UInt8) (rest : Str) : text < text ++ byte :: rest := by
  induction text with
  | nil => exact List.nil_lt_cons byte rest
  | cons first text step => exact List.cons_lt_cons_iff.mpr (.inr ⟨rfl, step⟩)

variable {below names : List Str}

theorem mem_parentsUpTo {steps : Nat}
    (plain : ∀ name ∈ names ++ below, Plain name) (some' : names ≠ []) (down : below ≠ [])
    (enough : below.length ≤ steps) :
    join false names ∈ parentsUpTo steps (join false (names ++ below)) := by
  induction below using List.reverseRecOn generalizing steps with
  | nil => exact absurd rfl down
  | append_singleton below name step =>
    rw [← append_assoc] at plain ⊢
    have front : ∀ other ∈ names ++ below, Plain other :=
      fun other member => plain other (mem_append_left _ member)
    have last := plain name (mem_append_right _ (mem_singleton_self name))
    have filled : names ++ below ≠ [] := by simp [some']
    rw [length_append, length_singleton] at enough
    cases steps with
    | zero => exact absurd enough (by omega)
    | succ steps =>
      rw [parentsUpTo, parentPath_join front filled last, if_neg (by simpa using join_ne_nil front filled)]
      by_cases more : below = []
      · rw [more, append_nil]
        exact mem_cons_self
      · exact mem_cons_of_mem _ (step front more (by omega))

theorem exists_join_append (some' : names ≠ []) (down : below ≠ []) :
    ∃ rest, join false (names ++ below) = join false names ++ slash :: rest := by
  induction below using List.reverseRecOn with
  | nil => exact absurd rfl down
  | append_singleton below name step =>
    have filled : names ++ below ≠ [] := by simp [some']
    rw [← append_assoc, join_concat filled]
    by_cases more : below = []
    · rw [more, append_nil]
      exact ⟨name, rfl⟩
    · obtain ⟨rest, shape⟩ := step more
      exact ⟨rest ++ slash :: name, by rw [shape, append_assoc, cons_append]⟩

theorem eq_join {key : Str} (relative : isAbsolute key = false) (normal : toNormalPath key = key)
    (some' : segments key ≠ []) : key = join false (segments key) := by
  have written := normal.symm.trans (toNormalPath_eq key)
  rw [relative] at written
  cases names : segments key with
  | nil => exact absurd names some'
  | cons name rest =>
    rw [names] at written
    exact written

theorem reported_of_ancestor {left right : Str} {blocked : List (List Str)} {size : Nat}
    (relative : isAbsolute left = false) (normalLeft : toNormalPath left = left)
    (normalRight : toNormalPath right = right) (ancestor : Ancestor left right)
    (some' : segments left ≠ []) (before : elements left ∈ blocked) :
    Reported size blocked right := by
  obtain ⟨absolute, below, down, -, names⟩ := ancestor
  have relativeRight := absolute.symm.trans relative
  have plain := (resolved_segments right).plain
  have filled : segments right ≠ [] := by
    rw [names]
    simp [down]
  have textRight := eq_join relativeRight normalRight filled
  rw [names] at plain
  refine .inr (.inr (.inr (.inr ⟨left, ?_, mem_cons_of_mem _ before⟩)))
  have enough : below.length ≤ right.length := by
    have whole := @length_le_join false _ plain
    rw [← names, ← textRight, names, length_append] at whole
    omega
  rw [parents]
  have inside := mem_parentsUpTo plain some' down enough
  rw [← names, ← textRight, ← eq_join relative normalLeft some'] at inside
  exact inside

theorem wellFormed_of_normal (normal : ∀ key ∈ stage.keys, toNormalPath key = key)
    (noConflict : treeConflict stage.keys = none) : WellFormed stage := by
  have unseen : ¬Visible stage.keys := by
    rw [← treeConflict_isSome, noConflict]
    exact false_ne_true
  have hidden : ∀ {before path after}, stage.keys = before ++ path :: after →
      ¬Reported stage.keys.length (before.map elements) path :=
    fun split reported => unseen ⟨_, _, _, split, reported⟩
  have relative : ∀ key ∈ stage.keys, isAbsolute key = false := by
    intro key member
    obtain ⟨before, after, split⟩ := append_of_mem member
    cases absolute : isAbsolute key with
    | false => rfl
    | true => exact absurd (.inr (.inl absolute)) (hidden split)
  have ordered : stage.keys.Pairwise (· < ·) := pairwise_map.mpr stage.ordered
  refine ⟨fun key member => ⟨relative key member, normal key member, fun upwards => ?_⟩, ?_⟩
  · obtain ⟨before, after, split⟩ := append_of_mem member
    have some' : segments key ≠ [] := by
      intro nothing
      rw [nothing] at upwards
      cases upwards
    have text := eq_join (relative key member) (normal key member) some'
    refine hidden split (.inr (.inr (.inl ?_)))
    rw [text, elements_join (resolved_segments key).plain some']
    exact upwards
  · intro left leftIn right rightIn ancestor
    obtain ⟨before, after, split⟩ := append_of_mem rightIn
    obtain ⟨absolute, below, down, -, names⟩ := id ancestor
    by_cases nothing : segments left = []
    · -- The directory itself stands above everything, but only beside nothing else.
      have isHere : left = here := by
        rw [← normal left leftIn, toNormalPath_eq, relative left leftIn, nothing]
        rfl
      have differ : left ≠ right := by
        rintro rfl
        rw [nothing, nil_append] at names
        exact down names.symm
      obtain ⟨before', after', split'⟩ := append_of_mem leftIn
      refine hidden split' (.inl ⟨isHere, ?_⟩)
      by_contra small
      cases keys : stage.keys with
      | nil =>
        rw [keys] at leftIn
        cases leftIn
      | cons first rest =>
        cases rest with
        | nil =>
          rw [keys, mem_singleton] at leftIn rightIn
          exact differ (leftIn.trans rightIn.symm)
        | cons second rest =>
          rw [keys, length_cons, length_cons] at small
          omega
    · have textLeft := eq_join (relative left leftIn) (normal left leftIn) nothing
      have filled : segments right ≠ [] := by
        rw [names]
        simp [down]
      have textRight := eq_join (relative right rightIn) (normal right rightIn) filled
      obtain ⟨rest, shape⟩ := exists_join_append nothing down
      have less : left < right := by
        rw [textRight, names, shape, ← textLeft]
        exact lt_append left slash rest
      have earlier : left ∈ before := by
        rw [split] at ordered leftIn
        obtain ⟨-, behind, -⟩ := List.pairwise_append.mp ordered
        cases mem_append.mp leftIn with
        | inl inside => exact inside
        | inr later =>
          cases mem_cons.mp later with
          | inl same => exact absurd less (same ▸ lt_irrefl _)
          | inr after' =>
            exact absurd ((pairwise_cons.mp behind).1 left after') (lt_asymm less)
      exact hidden split (reported_of_ancestor (relative left leftIn) (normal left leftIn)
        (normal right rightIn) ancestor nothing (mem_map.mpr ⟨left, earlier, rfl⟩))

end Normal

section Keys

variable {stage other last : Stage Artifact}

theorem mem_overlay {key : Str} : key ∈ (stage.overlay other).keys ↔
    key ∈ stage.keys ∨ key ∈ other.keys := by
  show key ∈ (union other.entries stage.entries).map fst ↔
    key ∈ stage.entries.map fst ∨ key ∈ other.entries.map fst
  rw [mem_keys, mem_keys, mem_keys, find_union, Option.isSome_or, or_eq_true, or_comm]

theorem mem_emplaceAll {key : Str} (list entries : List (Str × Artifact)) :
    key ∈ (emplaceAll list entries).map fst ↔ key ∈ entries.map fst ∨ key ∈ list.map fst := by
  rw [mem_keys, mem_keys, mem_keys, find_emplaceAll, Option.isSome_or, or_eq_true]

theorem checkConflict_eq (checked : checkConflict stage = .ok last) :
    last = stage ∧ treeConflict stage.keys = none := by
  rw [checkConflict] at checked
  cases conflict : treeConflict stage.keys with
  | some subtree =>
    rw [conflict] at checked
    cases checked
  | none =>
    rw [conflict] at checked
    exact ⟨(ok.inj checked).symm, rfl⟩

theorem layUpon_eq [DecidableEq Artifact] (laid : layUpon stage other = .ok last) :
    last = stage.overlay other := by
  rw [layUpon] at laid
  cases conflict : stage.findConflictingDuplicate other with
  | some path =>
    rw [conflict] at laid
    cases laid
  | none =>
    rw [conflict] at laid
    exact (ok.inj laid).symm

theorem artifactsTreeFrom_normal [DecidableEq Artifact] {entries : List (Str × Artifact)}
    (normal : ∀ key ∈ stage.keys, toNormalPath key = key)
    (made : artifactsTreeFrom stage entries = .ok last) :
    ∀ key ∈ last.keys, toNormalPath key = key := by
  induction entries generalizing stage with
  | nil => exact ok.inj made ▸ normal
  | cons entry entries step =>
    obtain ⟨key, artifact⟩ := entry
    rw [artifactsTreeFrom] at made
    cases found : find (toNormalPath key) stage.entries with
    | some present =>
      rw [found] at made
      simp only at made
      split at made
      · exact step normal made
      · cases made
    | none =>
      rw [found] at made
      refine step (fun query member => ?_) made
      have inside := (mem_emplaceAll [(toNormalPath key, artifact)] stage.entries).mp member
      cases inside with
      | inl before => exact normal query before
      | inr new =>
        rw [List.map_singleton, mem_singleton] at new
        rw [new, toNormalPath_idem]

end Keys

section Rules

theorem wellFormed_empty : WellFormed (Stage.empty : Stage Artifact) := by
  constructor <;> intro key member <;> cases member

theorem single_wellShaped_iff {name : Str} {artifact : Artifact} :
    WellShaped (single name artifact) ↔ GoodKey name := by
  constructor
  · exact fun shaped => shaped.artifacts.good name (mem_singleton_self name)
  · intro good
    have wellFormed : WellFormed (single name artifact).artifacts := by
      constructor
      · intro key member
        rw [mem_singleton.mp member]
        exact good
      · rintro left leftIn right rightIn ⟨-, below, down, -, names⟩
        rw [mem_singleton.mp leftIn, mem_singleton.mp rightIn] at names
        exact down (List.self_eq_append_right.mp names)
    exact ⟨wellFormed, wellFormed⟩

variable [DecidableEq Artifact]

theorem resultStage_wellFormed {val : Option (Stage (Option Artifact))}
    (accepted : resultStage val = .ok stage) : WellFormed stage := by
  cases val with
  | none => cases accepted
  | some map =>
    rw [resultStage] at accepted
    split at accepted
    · cases accepted
    · split at accepted
      · cases accepted
      · next tree =>
        obtain ⟨rfl, noConflict⟩ := checkConflict_eq accepted
        refine wellFormed_of_normal (artifactsTreeFrom_normal (fun key member => ?_) tree) noConflict
        cases member

theorem result_wellShaped {artifacts runfiles : Option (Stage (Option Artifact))} {provides : Bool}
    (accepted : result artifacts runfiles provides = .ok target) : WellShaped target := by
  rw [result] at accepted
  cases first : resultStage artifacts with
  | error error =>
    rw [first] at accepted
    cases accepted
  | ok artifacts' =>
    cases second : resultStage runfiles with
    | error error =>
      rw [first, second] at accepted
      cases accepted
    | ok runfiles' =>
      rw [first, second] at accepted
      cases provides with
      | false => cases accepted
      | true =>
        cases accepted
        exact ⟨resultStage_wellFormed first, resultStage_wellFormed second⟩

omit [DecidableEq Artifact] in
theorem genericRule_wellShaped {artifactOf : Str → Artifact} {outs outDirs : List Str}
    {dependencies : List (Analysed Artifact)}
    (accepted : genericRule artifactOf outs outDirs dependencies = .ok target) :
    WellShaped target := by
  rw [genericRule] at accepted
  simp only [bind, Except.bind, pure, Except.pure] at accepted
  split at accepted
  · cases accepted
  · split at accepted
    · cases accepted
    · split at accepted
      · cases accepted
      · split at accepted
        · cases accepted
        · next artifacts checked =>
          obtain ⟨rfl, noConflict⟩ := checkConflict_eq checked
          cases accepted
          refine ⟨wellFormed_of_normal (fun key member => ?_) noConflict, wellFormed_empty⟩
          have inside := (mem_emplaceAll _ _).mp member
          simp only [map_nil, not_mem_nil, false_or, map_map, mem_map, comp_apply] at inside
          obtain ⟨path, output, rfl⟩ := inside
          rw [← map_append] at output
          obtain ⟨path, -, rfl⟩ := mem_map.mp output
          exact toNormalPath_idem path

variable {deps : List (Analysed Artifact)}

theorem installDeps_keys {good : Str → Prop} (start : ∀ key ∈ stage.keys, good key)
    (all : ∀ dependency ∈ deps, ∀ key ∈ dependency.runfiles.keys, good key)
    (done : installDeps stage deps = .ok last) : ∀ key ∈ last.keys, good key := by
  induction deps generalizing stage with
  | nil => exact ok.inj done ▸ start
  | cons dependency deps step =>
    obtain ⟨first, later⟩ := forall_mem_cons.mp all
    rw [installDeps] at done
    cases laid : layUpon stage dependency.runfiles with
    | error error =>
      rw [laid] at done
      cases done
    | ok middle =>
      rw [laid] at done
      refine step (fun key member => ?_) later done
      rw [layUpon_eq laid, mem_overlay] at member
      exact member.elim (start key) (first key)

omit [DecidableEq Artifact] in
variable {files : List (Str × Analysed Artifact)}

theorem installFiles_keys {filesStage : Stage Artifact}
    (done : installFiles stage filesStage files = .ok last) (key : Str) :
    key ∈ last.keys ↔ key ∈ filesStage.keys ∨ key ∈ files.map fst := by
  induction files generalizing filesStage with
  | nil =>
    rw [ok.inj done]
    simp
  | cons file files step =>
    obtain ⟨path, target⟩ := file
    rw [installFiles] at done
    cases found : find path stage.entries with
    | some present =>
      rw [found] at done
      cases done
    | none =>
      rw [found] at done
      cases one : installFile path target with
      | error error =>
        rw [one] at done
        cases done
      | ok artifact =>
        rw [one] at done
        rw [step done, show key ∈ Stage.keys _ ↔ _ from
          mem_emplaceAll [(path, artifact)] filesStage.entries, or_assoc, List.map_singleton,
          mem_singleton, map_cons, mem_cons]
        rfl

variable {dirs : List (Analysed Artifact × Str)}

theorem installDirs_keys (done : installDirs stage dirs = .ok last) :
    (∀ key ∈ stage.keys, key ∈ last.keys) ∧
      ∀ key ∈ last.keys, key ∈ stage.keys ∨ toNormalPath key = key := by
  induction dirs generalizing stage with
  | nil =>
    rw [ok.inj done]
    exact ⟨fun _ member => member, fun _ => .inl⟩
  | cons dir dirs step =>
    obtain ⟨target, directory⟩ := dir
    rw [installDirs] at done
    cases laid : layUpon stage (installSubdir directory target) with
    | error error =>
      rw [laid] at done
      cases done
    | ok middle =>
      rw [laid] at done
      obtain ⟨stays, known⟩ := step done
      rw [layUpon_eq laid] at stays known
      refine ⟨fun key member => stays key (mem_overlay.mpr (.inl member)), fun key member => ?_⟩
      cases known key member with
      | inr normal => exact .inr normal
      | inl inside =>
        refine (mem_overlay.mp inside).imp id fun below => ?_
        have entry := (mem_emplaceAll _ _).mp below
        simp only [map_nil, not_mem_nil, false_or, map_map, mem_map, comp_apply] at entry
        obtain ⟨source, -, rfl⟩ := entry
        exact toNormalPath_idem _

theorem installRule_wellShaped_iff (shaped : ∀ dependency ∈ deps, WellShaped dependency)
    (accepted : installRule deps files dirs = .ok target) :
    WellShaped target ↔ ∀ file ∈ files, GoodKey file.1 := by
  rw [installRule] at accepted
  simp only [bind, Except.bind, pure, Except.pure] at accepted
  split at accepted
  · cases accepted
  · next depsStage staged =>
    split at accepted
    · cases accepted
    · next filesStage stagedFiles =>
      split at accepted
      · cases accepted
      · next dirsStage stagedDirs =>
        split at accepted
        · cases accepted
        · next stage checked =>
          obtain ⟨rfl, noConflict⟩ := checkConflict_eq checked
          cases accepted
          have fromFiles := installFiles_keys stagedFiles
          have fromDeps : ∀ key ∈ depsStage.keys, toNormalPath key = key := by
            refine installDeps_keys (fun key nothing => ?_) (fun dependency given key inside => ?_) staged
            · cases nothing
            · exact ((shaped dependency given).runfiles.good key inside).normal
          obtain ⟨stays, known⟩ := installDirs_keys stagedDirs
          constructor
          · intro whole file member
            refine whole.artifacts.good _ (stays _ (mem_overlay.mpr (.inr ?_)))
            exact (fromFiles _).mpr (.inr (mem_map.mpr ⟨file, member, rfl⟩))
          · intro good
            have wellFormed : WellFormed stage := by
              refine wellFormed_of_normal (fun key member => ?_) noConflict
              cases known key member with
              | inr normal => exact normal
              | inl before =>
                cases mem_overlay.mp before with
                | inl inDeps => exact fromDeps key inDeps
                | inr inFiles =>
                  cases (fromFiles key).mp inFiles with
                  | inl nothing => cases nothing
                  | inr inside =>
                    obtain ⟨file, given, rfl⟩ := mem_map.mp inside
                    exact (good file given).normal
            exact ⟨wellFormed, wellFormed⟩

/-- The locations that a rule takes as they are written are good. -/
def WellNamed : Rule Artifact → Prop
  | .user .. => True
  | .generic .. => True
  | .install _ files _ => ∀ file ∈ files, GoodKey file.1
  | .tree _ name _ => GoodKey name
  | .treeOverlay _ name _ => GoodKey name
  | .blobGen _ _ name _ _ => GoodKey name
  | .configure _ => True

theorem analyse_wellShaped_iff {rule : Rule Artifact}
    (shaped : ∀ dependency ∈ rule.dependencies, WellShaped dependency)
    (accepted : rule.analyse = .ok target) : WellShaped target ↔ WellNamed rule := by
  cases rule with
  | user dependencies artifacts runfiles provides =>
    exact ⟨fun _ => trivial, fun _ => result_wellShaped accepted⟩
  | generic artifactOf outs outDirs dependencies =>
    exact ⟨fun _ => trivial, fun _ => genericRule_wellShaped accepted⟩
  | install deps files dirs =>
    refine installRule_wellShaped_iff (fun dependency member => shaped dependency ?_) accepted
    exact mem_append_left _ (mem_append_left _ member)
  | tree treeArtifact name dependencies =>
    rw [Rule.analyse, treeRule] at accepted
    split at accepted
    · cases accepted
    · exact ok.inj accepted ▸ single_wellShaped_iff
  | treeOverlay overlayArtifact name dependencies =>
    exact ok.inj accepted ▸ single_wellShaped_iff
  | blobGen blobArtifact isSymlink name data dependencies =>
    rw [Rule.analyse, blobGenRule] at accepted
    split at accepted
    · cases accepted
    · exact ok.inj accepted ▸ single_wellShaped_iff
  | configure inner =>
    have same : inner = target := ok.inj accepted
    subst same
    exact ⟨fun _ => trivial, fun _ => shaped inner (mem_singleton_self inner)⟩

/-- The targets that are built over some sources by rules that take good locations only. -/
inductive Built (sources : Analysed Artifact → Prop) : Analysed Artifact → Prop where
  | source {target : Analysed Artifact} (isSource : sources target) : Built sources target
  | rule {rule : Rule Artifact} {target : Analysed Artifact}
    (dependencies : ∀ dependency ∈ rule.dependencies, Built sources dependency)
    (wellNamed : WellNamed rule) (accepted : rule.analyse = .ok target) : Built sources target

/-- The stages of targets are well formed, over well-formed sources, as long as all locations that
rules take as they are written are good. -/
theorem built_wellShaped {sources : Analysed Artifact → Prop}
    (shaped : ∀ target, sources target → WellShaped target) {target : Analysed Artifact}
    (built : Built sources target) : WellShaped target := by
  induction built with
  | source isSource => exact shaped _ isSource
  | rule _ wellNamed accepted step => exact (analyse_wellShaped_iff step accepted).mpr wellNamed

end Rules

section Example

/-- A source target with one file. -/
def sourceFile : Analysed Bool := single [97] true

theorem overlay_wellShaped : WellShaped (single [98] false : Analysed Bool) := by
  refine @built_wellShaped _ _ (fun target => target = sourceFile) ?_ _
    (@Built.rule _ _ _ (.treeOverlay (fun _ => false) [98] [sourceFile]) _ ?_ ?_ ?_)
  · rintro target rfl
    exact single_wellShaped_iff.mpr ⟨by decide, by decide, by decide⟩
  · intro dependency member
    rw [mem_singleton.mp member]
    exact .source rfl
  · exact ⟨by decide, by decide, by decide⟩
  · rfl

theorem fileGen_upwards :
    (Rule.blobGen (fun _ => true) false [46, 46, 47, 120] [] []).analyse =
      .ok (single [46, 46, 47, 120] true) ∧
    ¬WellShaped (single [46, 46, 47, 120] true : Analysed Bool) := by
  refine ⟨rfl, fun shaped => ?_⟩
  have good := single_wellShaped_iff.mp shaped
  exact good.nonUpwards (by decide)

end Example

end Jst.Verif.StageShapes
