import Jst.Verif.CachedResults
/-!
# Successful actions are served from the cache

A result that a local action has stored is found to contain the outputs of the action unless one of
its output directories was built as a symbolic link: the check of the old protocol versions looks for
directories among the directories only, and takes links to directories for files.
-/
namespace Jst.Verif.ServedActions

open Execution

/-! ## Collected outputs -/

section Collecting

variable {Digest : Type} {result collected : ActionResult Digest}

/-- The paths that count as output files for the old protocol versions. -/
def filePaths (result : ActionResult Digest) : List Str :=
  result.outputFiles.map (·.path) ++
    (result.outputFileSymlinks ++ result.outputDirectorySymlinks).map (·.path)

/-- The paths that count as output directories for the old protocol versions. -/
def dirPaths (result : ActionResult Digest) : List Str := result.outputDirectories.map (·.path)

/-- The paths that count as outputs for v2.1. -/
def allPaths (result : ActionResult Digest) : List Str :=
  result.outputFiles.map (·.path) ++ result.outputSymlinks.map (·.path) ++
    (result.outputFileSymlinks ++ result.outputDirectorySymlinks).map (·.path) ++
    result.outputDirectories.map (·.path)

/-- The output is a directory. -/
def isDirectory : BuiltOutput Digest → Bool
  | .directory _ => true
  | _ => false

/-- An output adds its path to the paths of some kind if it counts as that kind. -/
def Adds (field : ActionResult Digest → List Str) (counts : BuiltOutput Digest → Bool)
    (add : Str → BuiltOutput Digest → ActionResult Digest → ActionResult Digest) : Prop :=
  ∀ path found result, (add path found result).exitCode = result.exitCode ∧
    ∀ other, other ∈ field (add path found result) ↔
      other ∈ field result ∨ other = path ∧ counts found = true

theorem mem_collect {field : ActionResult Digest → List Str} {counts : BuiltOutput Digest → Bool}
    {add : Str → BuiltOutput Digest → ActionResult Digest → ActionResult Digest}
    (adds : Adds field counts add) {output : Str → Option (BuiltOutput Digest)} {paths : List Str}
    (success : LocalAction.collect output add paths result = (true, collected)) :
    collected.exitCode = result.exitCode ∧ (∀ path ∈ paths, ∃ found, output path = some found) ∧
    ∀ other, other ∈ field collected ↔ other ∈ field result ∨
      other ∈ paths ∧ ∃ found, output other = some found ∧ counts found = true := by
  induction paths generalizing result with
  | nil =>
    cases success
    simp
  | cons path rest step =>
    unfold LocalAction.collect at success
    cases found : output path with
    | none =>
      rw [found] at success
      cases success
    | some built =>
      rw [found] at success
      obtain ⟨exitCode, others, members⟩ := step success
      obtain ⟨keeps, added⟩ := adds path built result
      refine ⟨exitCode.trans keeps, fun other member => ?_, fun other => ?_⟩
      · cases mem_cons.mp member with
        | inl same => exact ⟨built, same ▸ found⟩
        | inr later => exact others other later
      · rw [members, added, mem_cons]
        constructor
        · rintro ((before | ⟨rfl, counted⟩) | ⟨later, counted⟩)
          · exact .inl before
          · exact .inr ⟨.inl rfl, built, found, counted⟩
          · exact .inr ⟨.inr later, counted⟩
        · rintro (before | ⟨rfl | later, counted⟩)
          · exact .inl (.inl before)
          · obtain ⟨output', same, counted⟩ := counted
            rw [found] at same
            cases same
            exact .inl (.inr ⟨rfl, counted⟩)
          · exact .inr ⟨later, counted⟩

theorem adds_output : Adds allPaths (fun _ : BuiltOutput Digest => true) LocalAction.addOutput := by
  refine fun path found result => ⟨by cases found <;> rfl, fun other => ?_⟩
  cases found <;> simp only [LocalAction.addOutput, allPaths, map_append, map_cons,
    map_nil, mem_append, mem_singleton, and_true] <;> tauto

theorem adds_old {add : Str → BuiltOutput Digest → ActionResult Digest → ActionResult Digest}
    {mode : RequestMode}
    (isAdd : add = LocalAction.addFileOrSymlink mode ∨ add = LocalAction.addDirOrSymlink mode) :
    Adds filePaths (fun found => !isDirectory found) add ∧ Adds dirPaths isDirectory add := by
  constructor
  · refine fun path found result => ⟨?_, fun other => ?_⟩
    · rcases isAdd with rfl | rfl <;> cases mode <;> cases found <;> rfl
    rcases isAdd with rfl | rfl <;> cases mode <;> cases found <;>
      simp only [LocalAction.addFileOrSymlink, LocalAction.addDirOrSymlink, LocalAction.addOutput,
        filePaths, isDirectory, map_append, map_cons, map_nil, mem_append,
        mem_singleton, Bool.not_true, Bool.not_false, false_eq_true, and_true, and_false,
        or_false, reduceCtorEq, if_false, if_true, false_or, or_assoc,
        or_comm, or_left_comm]
  · refine fun path found result => ⟨?_, fun other => ?_⟩
    · rcases isAdd with rfl | rfl <;> cases mode <;> cases found <;> rfl
    rcases isAdd with rfl | rfl <;> cases mode <;> cases found <;>
      simp [LocalAction.addFileOrSymlink, LocalAction.addDirOrSymlink, LocalAction.addOutput,
        dirPaths, isDirectory]

end Collecting

/-! ## Executing twice -/

section Executing

variable {Hash : Type} {exchange : Exchange Hash} {spec : ActionSpec} {execution : ActionRun Hash}

/-- The result that an execution collects, and whether that is all of it. -/
def outcome (exchange : Exchange Hash) (spec : ActionSpec) (execution : ActionRun Hash) :
    Bool × ActionResult Hash :=
  LocalAction.collectAndStoreOutputs (validSymlink exchange) execution.built spec.mode spec.outputs
    (.empty execution.stdout execution.stderr execution.exitCode)

/-- No output directory of a request of an old protocol version was built as a symbolic link. -/
def NoDirectoryLinks (spec : ActionSpec) (execution : ActionRun Hash) : Prop :=
  spec.mode = .v2_1 ∨
    ∀ path ∈ spec.outputs.dirs, ∀ target, execution.built path ≠ some (.symlink target)

variable {built : Str → Option (BuiltOutput Hash)}

variable {valid : Str → Bool} {output : BuiltOutput Hash}

theorem notDirectory_of_collect {path : Str}
    (success : LocalAction.collectOutputFileOrSymlink valid built path = some output) :
    isDirectory output = false := by
  unfold LocalAction.collectOutputFileOrSymlink at success
  split at success
  · cases success
  · next other =>
    cases output with
    | directory digest => exact absurd success (other digest)
    | _ => rfl

theorem directory_iff_of_collect {path : Str}
    (success : LocalAction.collectOutputDirOrSymlink valid built path = some output) :
    isDirectory output = true ↔ ∀ target, built path ≠ some (.symlink target) := by
  unfold LocalAction.collectOutputDirOrSymlink LocalAction.collectOutputPath at success
  cases found : built path with
  | none => rw [found] at success; cases success
  | some given =>
    rw [found] at success
    cases given with
    | file digest isExecutable => cases success
    | directory digest =>
      cases success
      exact iff_of_true rfl fun target => by simp
    | symlink target =>
      dsimp only at success
      split at success
      · cases success
      · split at success
        · cases success
          exact iff_of_false false_ne_true fun noLink => noLink target rfl
        · cases success

theorem contains_iff {result : ActionResult Hash}
    (collected : outcome exchange spec execution = (true, result)) :
    result.exitCode = execution.exitCode ∧
    (containsExpectedOutputs spec result = true ↔ NoDirectoryLinks spec execution) := by
  unfold outcome LocalAction.collectAndStoreOutputs at collected
  unfold containsExpectedOutputs NoDirectoryLinks
  by_cases new : spec.mode = .v2_1
  · rw [if_pos new] at collected
    simp only [if_pos new]
    obtain ⟨exitCode, found, all⟩ := mem_collect adds_output collected
    refine ⟨exitCode, iff_of_true (List.all_eq_true.mpr fun path member => decide_eq_true ?_)
      (.inl new)⟩
    obtain ⟨output, isOutput⟩ := found path member
    exact (all path).mpr (.inr ⟨member, output, isOutput, rfl⟩)
  · rw [if_neg new] at collected
    simp only [if_neg new]
    obtain ⟨addsFile, addsDir⟩ := @adds_old Hash _ spec.mode (.inl rfl)
    obtain ⟨addsFile', addsDir'⟩ := @adds_old Hash _ spec.mode (.inr rfl)
    split at collected
    · cases collected
    · next afterFiles called =>
      obtain ⟨exitCode, filesFound, files⟩ := mem_collect addsFile called
      obtain ⟨exitCode', dirsFound, files'⟩ := mem_collect addsFile' collected
      have isFile : ∀ path ∈ spec.outputs.files, path ∈ filePaths result := by
        intro path member
        obtain ⟨output, isOutput⟩ := filesFound path member
        refine (files' path).mpr (.inl ((files path).mpr (.inr ⟨member, output, isOutput, ?_⟩)))
        rw [notDirectory_of_collect isOutput]
        rfl
      have isDir : ∀ path ∈ spec.outputs.dirs, (path ∈ dirPaths result ↔
          ∀ target, execution.built path ≠ some (.symlink target)) := by
        intro path member
        obtain ⟨output, isOutput⟩ := dirsFound path member
        rw [(mem_collect addsDir' collected).2.2, (mem_collect addsDir called).2.2,
          ← directory_iff_of_collect isOutput]
        constructor
        · rintro ((impossible | ⟨-, other, isOther, counts⟩) | ⟨-, other, isOther, counts⟩)
          · cases impossible
          · rw [notDirectory_of_collect isOther] at counts
            cases counts
          · rw [isOutput] at isOther
            cases isOther
            exact counts
        · exact fun counts => .inr ⟨member, output, isOutput, counts⟩
      rw [and_eq_true, List.all_eq_true, List.all_eq_true, or_iff_right new]
      refine ⟨exitCode'.trans exitCode, fun both path member =>
        (isDir path member).mp (of_decide_eq_true (both.2 path member)), fun noLinks => ?_⟩
      exact ⟨fun path member => decide_eq_true (isFile path member), fun path member =>
        decide_eq_true ((isDir path member).mpr (noLinks path member))⟩

variable [DecidableEq Hash] {Id : Type} [DecidableEq Id]

/-- Once an action was executed successfully it is served from the cache, with the same result and
without running, if and only if none of its output directories was built as a symbolic link. -/
theorem served_iff (exchange : Exchange Hash) (id : Id) (spec : ActionSpec)
    (execution : ActionRun Hash) (state : CacheState Hash Id)
    (fresh : LocalAction.cached id spec .cacheOutput state = none)
    (succeeded : execution.exitCode = 0)
    (collected : (outcome exchange spec execution).1 = true) (again : CacheFlag)
    (enabled : again.cacheEnabled = true) :
    let first := LocalAction.execute exchange id spec .cacheOutput execution state
    (∃ response, first.1 = some response ∧ LocalAction.cached id spec again first.2 = some response ∧
      ∀ another, LocalAction.execute exchange id spec again another first.2 =
        (some response, first.2)) ↔ NoDirectoryLinks spec execution := by
  obtain ⟨exitCode, contains⟩ := contains_iff (Prod.ext collected rfl)
  have run : LocalAction.execute exchange id spec .cacheOutput execution state =
      (some (LocalAction.run exchange id spec .cacheOutput execution state).1,
        (LocalAction.run exchange id spec .cacheOutput execution state).2) := by
    unfold LocalAction.execute
    rw [fresh]
    rfl
  have isStored : (LocalAction.run exchange id spec .cacheOutput execution state).2.entries id =
      some (LocalAction.run exchange id spec .cacheOutput execution state).1 := by
    unfold LocalAction.run
    dsimp only
    rw [if_pos ⟨collected, rfl⟩, update_self]
  have served : LocalAction.cached id spec again
      (LocalAction.run exchange id spec .cacheOutput execution state).2 =
      if containsExpectedOutputs spec (outcome exchange spec execution).2 then
        some (LocalAction.run exchange id spec .cacheOutput execution state).1 else none := by
    unfold LocalAction.cached
    rw [if_pos enabled, isStored, Option.filter_some]
    have succeeded' : (outcome exchange spec execution).2.exitCode = 0 := exitCode.trans succeeded
    change (if ((outcome exchange spec execution).2.exitCode = 0 &&
      containsExpectedOutputs spec (outcome exchange spec execution).2) = true then _ else _) = _
    rw [decide_eq_true succeeded', Bool.true_and]
  rw [run]
  dsimp only
  rw [← contains, served]
  constructor
  · rintro ⟨response, -, isServed, -⟩
    by_contra missing
    rw [if_neg missing] at isServed
    cases isServed
  · intro isContained
    rw [if_pos isContained] at served ⊢
    refine ⟨_, rfl, rfl, fun another => ?_⟩
    unfold LocalAction.execute
    rw [served]

end Executing

/-- An action of a version with one output directory. -/
def oneDirectory (mode : RequestMode) : ActionSpec := ⟨mode, ⟨[], [], [lit "d"]⟩⟩

/-- A storage in which nothing is cached. -/
def noEntries : CacheState Str Unit := ⟨fun _ => none, fun _ => none⟩

theorem directory_served :
    (let first := LocalAction.execute (CachedResults.plainExchange false) ()
      (oneDirectory .bestEffort) .cacheOutput (CachedResults.producing (.directory []) []) noEntries
    ∃ response, first.1 = some response ∧
      LocalAction.cached () (oneDirectory .bestEffort) .fromCacheOnly first.2 = some response ∧
      ∀ another, LocalAction.execute (CachedResults.plainExchange false) ()
        (oneDirectory .bestEffort) .fromCacheOnly another first.2 = (some response, first.2)) :=
  (served_iff (CachedResults.plainExchange false) () (oneDirectory .bestEffort)
    (CachedResults.producing (.directory []) []) noEntries rfl rfl rfl .fromCacheOnly rfl).mpr
    (.inr fun _ _ _ => by simp [CachedResults.producing])

theorem link_not_served :
    ¬ ∀ (spec : ActionSpec) (execution : ActionRun Str),
      execution.exitCode = 0 →
      (outcome (CachedResults.plainExchange false) spec execution).1 = true →
      (LocalAction.cached () spec .cacheOutput (LocalAction.execute
        (CachedResults.plainExchange false) () spec .cacheOutput execution noEntries).2).isSome := by
  intro served
  have isServed := served (oneDirectory .v2_0) (CachedResults.producing (.symlink (lit "e")) [])
    rfl rfl
  cases isServed

end Jst.Verif.ServedActions
