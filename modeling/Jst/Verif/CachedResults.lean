import Jst.Verif.ResultExchange
import Mathlib.Logic.Equiv.List
/-!
# Readers of the action cache obtain what was produced

What is read is what was produced, as long as entries with directories are read on the side that
wrote them, and the service does not store what was collected in part.
-/
namespace Jst.Verif.CachedResults

open Execution ResultExchange
open Encodable (decode encode encodek ofLeftInverse)

variable {Hash : Type}

variable {execution : ActionRun Hash} {entry : CacheEntry Hash}

/-! ## Events at the storage -/

section Events

variable [DecidableEq Hash] {Id : Type} [DecidableEq Id] {exchange : Exchange Hash}
  {context : ServiceContext Hash} {actions : Actions Id}

variable {state : CacheState Hash Id} {event : Event Hash Id}

/-- The outputs of an execution are stored, in directories of a bounded number. -/
structure Grounded (exchange : Exchange Hash) (fuel : Nat) (run : ActionRun Hash) : Prop where
  targets : ∀ path target, run.built path = some (.symlink target) → target ∈ run.blobs
  trees : ∀ path digest, run.built path = some (.directory digest) → exchange.native = false →
    ∀ store, Addressed exchange store →
      (∀ content ∈ run.blobs, store (exchange.blob content) = some content) →
      StoredTree exchange fuel store digest

/-- All outputs that were produced are collected. -/
def Collects (exchange : Exchange Hash) (spec : ActionSpec) (run : ActionRun Hash) : Prop :=
  ∀ path ∈ specPaths spec, (run.built path).isSome → path ∈ collectedPaths exchange spec run

/-- The execution of an event. -/
def executionOf : Event Hash Id → Option (ActionRun Hash)
  | .runLocal _ _ execution => some execution
  | .runService _ _ execution => some execution
  | .lookUp _ => none

/-- What an event reads is what was produced. -/
def ReadsWell (exchange : Exchange Hash) (fuel : Nat) (actions : Actions Id)
    (state : CacheState Hash Id) (event : Event Hash Id) : Prop :=
  ∀ entry side, entryRead actions state event = some (entry, side) →
    Obtained (readEntry exchange fuel state entry side)
      (produced exchange entry.spec entry.execution)

/-- An event reads what fits, and the service does not store what it collects in part. -/
structure Sound (exchange : Exchange Hash) (actions : Actions Id) (state : CacheState Hash Id)
    (event : Event Hash Id) : Prop where
  fits : ∀ entry side, entryRead actions state event = some (entry, side) →
    Fits exchange side entry.writer entry.result
  collects : ∀ id execution, event = .runService id false execution →
    entryRead actions state event = none → execution.exitCode = 0 →
    Collects exchange (serviceSpec (actions.spec id)) execution

/-- The entries of the cache represent what was produced. -/
structure Kept (exchange : Exchange Hash) (fuel : Nat) (actions : Actions Id)
    (state : CacheState Hash Id) : Prop where
  addressed : Addressed exchange state.store
  written : ∀ id entry, state.entries id = some entry →
    Written exchange fuel state.store entry.writer entry.result
      (produced exchange entry.spec entry.execution)
  legacy : ∀ id entry, state.entries id = some entry → (actions.spec id).mode = .v2_0 →
    entry.result.outputSymlinks = []

section
omit [DecidableEq Hash] [DecidableEq Id]

theorem Grounded.mono {less more : Nat} (atMost : less ≤ more) {run : ActionRun Hash}
    (grounded : Grounded exchange less run) : Grounded exchange more run where
  targets := grounded.targets
  trees := by
    intro path digest built compatible store addressed stored
    obtain ⟨depth, size, sized, small⟩ :=
      grounded.trees path digest built compatible store addressed stored
    exact ⟨depth, size, sized, by omega⟩

theorem Collects.covers {spec : ActionSpec} (collects : Collects exchange spec execution)
    {result : ActionResult Hash}
    (paths : ∀ path ∈ collectedPaths exchange spec execution, path ∈ resultPaths result)
    (path : Str) (info : ArtifactInfo Hash) (is : produced exchange spec execution path = some info) :
    path ∈ resultPaths result := by
  unfold produced at is
  split at is
  · next member =>
    refine paths path (collects path member ?_)
    rw [← @Option.isSome_map _ _ (infoOf exchange), is]
    rfl
  · cases is

variable {fuel : Nat}

end

theorem Kept.grown {store : BlobStore Hash} (kept : Kept exchange fuel actions state)
    (grown : Grown exchange state.store store) :
    Kept exchange fuel actions { state with store } where
  addressed := grown.addressed kept.addressed
  written := by
    intro id entry present
    have before := kept.written id entry present
    exact ⟨before.toRepresents.grown grown, before.covers⟩
  legacy := kept.legacy

omit [DecidableEq Hash] in
theorem Kept.insert {id : Id} (kept : Kept exchange fuel actions state)
    (written : Written exchange fuel state.store entry.writer entry.result
      (produced exchange entry.spec entry.execution))
    (legacy : (actions.spec id).mode = .v2_0 → entry.result.outputSymlinks = []) :
    Kept exchange fuel actions { state with entries := update state.entries id (some entry) } where
  addressed := kept.addressed
  written := by
    intro other found present
    by_cases same : other = id
    · subst same
      simp only [update_self] at present
      cases present
      exact written
    · simp only [update_of_ne same] at present
      exact kept.written other found present
  legacy := by
    intro other found present
    by_cases same : other = id
    · subst same
      simp only [update_self] at present
      cases present
      exact legacy
    · simp only [update_of_ne same] at present
      exact kept.legacy other found present

theorem run_kept (grounded : Grounded exchange fuel execution) (id : Id)
    (flag : CacheFlag) (kept : Kept exchange fuel actions state)
    {outcome : CacheEntry Hash × CacheState Hash Id}
    (called : LocalAction.run exchange id (actions.spec id) flag execution state = outcome) :
    Kept exchange fuel actions outcome.2 ∧
      Represents exchange fuel outcome.2.store .localAction outcome.1.result
        (produced exchange (actions.spec id) execution) ∧
      outcome.1.writer = .localAction ∧ outcome.1.spec = actions.spec id ∧
      outcome.1.execution = execution ∧ outcome.1.result.exitCode = execution.exitCode ∧
      ((actions.spec id).mode = .v2_0 → outcome.1.result.outputSymlinks = []) ∧
      (Collects exchange (actions.spec id) execution →
        ∀ path info, produced exchange (actions.spec id) execution path = some info →
          path ∈ resultPaths outcome.1.result) := by
  subst called
  have stored := storeBlobs_grown kept.addressed execution.blobs
  have supported : ∀ path output, execution.built path = some output →
      SupportedOutput exchange fuel (storeBlobs exchange execution.blobs state.store) output := by
    intro path output built
    cases output with
    | file digest isExecutable => trivial
    | symlink target => exact stored.2 target (grounded.targets path target built)
    | directory digest =>
      intro compatible
      exact grounded.trees path digest built compatible _ (stored.1.addressed kept.addressed)
        stored.2
  unfold LocalAction.run
  cases collected : LocalAction.collectAndStoreOutputs (validSymlink exchange) execution.built
      (actions.spec id).mode (actions.spec id).outputs
      (.empty execution.stdout execution.stderr execution.exitCode) with
  | mk all result =>
    obtain ⟨represents, exitCode, legacy, paths, complete⟩ :=
      collectAndStoreOutputs_spec supported collected
    refine ⟨?_, represents, rfl, rfl, rfl, exitCode, legacy, fun collects => collects.covers paths⟩
    simp only
    split
    · next stores =>
      have collects : Collects exchange (actions.spec id) execution := by
        intro path member _
        rw [complete stores.1]
        exact member
      exact Kept.insert (kept.grown stored.1) ⟨represents, collects.covers paths⟩ legacy
    · exact kept.grown stored.1

theorem execute_cases (id : Id) (spec : ActionSpec) (flag : CacheFlag)
    (execution : ActionRun Hash) (state : CacheState Hash Id) :
    (∃ entry, LocalAction.cached id spec flag state = some entry ∧
      LocalAction.execute exchange id spec flag execution state = (some entry, state)) ∨
    (LocalAction.cached id spec flag state = none ∧
      LocalAction.execute exchange id spec flag execution state = (none, state)) ∨
    (LocalAction.cached id spec flag state = none ∧
      LocalAction.execute exchange id spec flag execution state =
        (some (LocalAction.run exchange id spec flag execution state).1,
          (LocalAction.run exchange id spec flag execution state).2)) := by
  unfold LocalAction.execute
  cases cached : LocalAction.cached id spec flag state with
  | some entry => exact .inl ⟨entry, rfl, rfl⟩
  | none =>
    cases flag.executionEnabled with
    | false => exact .inr (.inl ⟨rfl, rfl⟩)
    | true => exact .inr (.inr ⟨rfl, rfl⟩)

section
omit [DecidableEq Hash] [DecidableEq Id]

theorem entry_of_cached {id : Id} {spec : ActionSpec} {flag : CacheFlag}
    (cached : LocalAction.cached id spec flag state = some entry) :
    state.entries id = some entry := by
  unfold LocalAction.cached at cached
  split at cached
  · exact (Option.filter_eq_some_iff.mp cached).1
  · cases cached

theorem entry_of_read {side : Writer} (read : entryRead actions state event = some (entry, side)) :
    ∃ id, state.entries id = some entry := by
  cases event with
  | runLocal id flag execution =>
    obtain ⟨found, cached, same⟩ := map_eq_some_iff.mp read
    cases same
    exact ⟨id, entry_of_cached cached⟩
  | runService id doNotCache execution =>
    obtain ⟨found, cached, same⟩ := map_eq_some_iff.mp read
    cases same
    exact ⟨_, entry_of_cached cached⟩
  | lookUp id =>
    obtain ⟨found, present, same⟩ := map_eq_some_iff.mp read
    cases same
    exact ⟨id, present⟩

end

omit [DecidableEq Id] in
theorem reads_well (kept : Kept exchange fuel actions state)
    (sound : Sound exchange actions state event) : ReadsWell exchange fuel actions state event := by
  intro entry side read
  obtain ⟨id, present⟩ := entry_of_read read
  have written := kept.written id entry present
  cases side with
  | localAction => exact obtained_local written (sound.fits entry _ read)
  | service => exact (obtained_remote kept.addressed written (sound.fits entry _ read)).1

theorem inner_response {id : Id} {doNotCache : Bool}
    (grounded : Grounded exchange context.fuel execution)
    (kept : Kept exchange context.fuel actions state)
    (sound : Sound exchange actions state (.runService id doNotCache execution)) {flag : CacheFlag}
    (flagIs : flag = if doNotCache then .doNotCacheOutput else .cacheOutput)
    {outcome : Option (CacheEntry Hash) × CacheState Hash Id}
    (called : LocalAction.execute exchange (actions.inner id) (serviceSpec (actions.spec id)) flag
      execution state = outcome) :
    Kept exchange context.fuel actions outcome.2 ∧ ∀ response, outcome.1 = some response →
      Represents exchange context.fuel outcome.2.store response.writer response.result
        (produced exchange response.spec response.execution) ∧
      Fits exchange .localAction response.writer response.result ∧
      ((actions.spec id).outputs.paths.isEmpty = true → response.result.outputSymlinks = []) ∧
      (response.result.exitCode = 0 → doNotCache = false →
        ∀ path info, produced exchange response.spec response.execution path = some info →
          path ∈ resultPaths response.result) := by
  subst called
  have old : (actions.spec id).outputs.paths.isEmpty = true →
      (actions.spec (actions.inner id)).mode = .v2_0 := by
    intro none
    rw [actions.spec_inner, serviceSpec, if_pos none]
  rcases @execute_cases _ _ _ _ exchange (actions.inner id) (serviceSpec (actions.spec id)) flag
      execution state with ⟨entry, cached, executed⟩ | ⟨_, executed⟩ | ⟨missed, executed⟩
  · rw [executed]
    refine ⟨kept, ?_⟩
    intro response same
    obtain rfl : entry = response := some.inj same
    have present := entry_of_cached cached
    have written := kept.written _ _ present
    refine ⟨written.toRepresents, sound.fits entry .localAction ?_,
      fun none => kept.legacy _ _ present (old none), fun _ _ => written.covers⟩
    rw [flagIs] at cached
    simp only [entryRead, cached, map_some]
  · rw [executed]
    exact ⟨kept, fun response impossible => by cases impossible⟩
  · rw [executed]
    rw [← actions.spec_inner] at executed ⊢
    obtain ⟨keptAfter, represents, writer, spec, run, exitCode, legacy, covers⟩ :=
      run_kept grounded (actions.inner id) flag kept rfl
    refine ⟨keptAfter, ?_⟩
    rintro response ⟨⟩
    rw [writer, spec, run]
    refine ⟨represents, .inr (.inl rfl), fun none => legacy (old none), ?_⟩
    rintro success rfl
    refine covers ?_
    rw [actions.spec_inner]
    refine sound.collects id execution rfl ?_ (exitCode.symm.trans success)
    rw [flagIs] at missed
    simp only [entryRead, missed, Option.map_none]

theorem serviceExecute_kept {id : Id} {doNotCache : Bool}
    (grounded : Grounded exchange context.fuel execution)
    (kept : Kept exchange context.fuel actions state)
    (sound : Sound exchange actions state (.runService id doNotCache execution)) :
    Kept exchange context.fuel actions (serviceExecute exchange context id (actions.inner id)
      (actions.spec id) doNotCache execution state).2 := by
  unfold serviceExecute
  simp only
  cases called : LocalAction.execute exchange (actions.inner id) (serviceSpec (actions.spec id))
      (if doNotCache then .doNotCacheOutput else .cacheOutput) execution state with
  | mk answer next =>
    obtain ⟨keptNext, answered⟩ := inner_response grounded kept sound rfl called
    cases answer with
    | none => exact keptNext
    | some response =>
      obtain ⟨represents, fits, legacy, covers⟩ := answered response rfl
      obtain ⟨result, after, written, holds, paths, exitCode, grown, old⟩ :=
        toBazelExecuteResponse_spec context represents fits keptNext.addressed legacy
      simp only [written]
      split
      · next stores =>
        refine Kept.insert (keptNext.grown grown) ⟨holds, ?_⟩ ?_
        · intro path info is
          exact paths path (covers (exitCode.symm.trans stores.1)
            (Bool.not_eq_true' _ ▸ stores.2) path info is)
        · intro isOld
          refine old ?_
          rw [actions.legacy id isOld]
          rfl
      · exact keptNext.grown grown

theorem step_kept (grounded : ∀ execution, executionOf event = some execution →
      Grounded exchange context.fuel execution) (kept : Kept exchange context.fuel actions state)
    (sound : Sound exchange actions state event) :
    Kept exchange context.fuel actions (state.step exchange context actions event) := by
  cases event with
  | runLocal id flag execution =>
    simp only [CacheState.step]
    rcases @execute_cases _ _ _ _ exchange id (actions.spec id) flag execution state with
      ⟨entry, _, executed⟩ | ⟨_, executed⟩ | ⟨_, executed⟩
    · rw [executed]
      exact kept
    · rw [executed]
      exact kept
    · rw [executed]
      exact (run_kept (grounded execution rfl) id flag kept rfl).1
  | runService id doNotCache execution =>
    exact serviceExecute_kept (grounded execution rfl) kept sound
  | lookUp id =>
    simp only [CacheState.step]
    cases present : state.entries id with
    | none => exact kept
    | some entry =>
      have fits := sound.fits entry .service (by simp only [entryRead, present, map_some])
      exact kept.grown
        (obtained_remote kept.addressed (kept.written id entry present) fits).2

/-- Something holds at every event of a sequence. -/
def Along (exchange : Exchange Hash) (context : ServiceContext Hash) (actions : Actions Id)
    (holds : CacheState Hash Id → Event Hash Id → Prop) :
    CacheState Hash Id → List (Event Hash Id) → Prop
  | _, [] => True
  | state, event :: rest =>
    holds state event ∧
      Along exchange context actions holds (state.step exchange context actions event) rest

theorem along_reads_well {events : List (Event Hash Id)}
    (kept : Kept exchange context.fuel actions state)
    (grounded : ∀ event ∈ events, ∀ execution, executionOf event = some execution →
      Grounded exchange context.fuel execution)
    (sound : Along exchange context actions (Sound exchange actions) state events) :
    Along exchange context actions (ReadsWell exchange context.fuel actions) state events := by
  induction events generalizing state with
  | nil => trivial
  | cons event rest later =>
    have next := step_kept (grounded event mem_cons_self) kept sound.1
    exact ⟨reads_well kept sound.1, later next (forall_mem_cons.mp grounded).2 sound.2⟩

omit [DecidableEq Hash] [DecidableEq Id] in
theorem exists_fuel {events : List (Event Hash Id)}
    (grounded : ∀ event ∈ events, ∀ execution, executionOf event = some execution →
      ∃ fuel, Grounded exchange fuel execution) :
    ∃ enough, ∀ event ∈ events, ∀ execution, executionOf event = some execution →
      Grounded exchange enough execution := by
  induction events with
  | nil => exact ⟨0, fun _ impossible => by cases impossible⟩
  | cons event rest later =>
    obtain ⟨enough, all⟩ := later fun other member =>
      grounded other (mem_cons_of_mem _ member)
    have here : ∃ fuel, ∀ execution, executionOf event = some execution →
        Grounded exchange fuel execution := by
      cases known : executionOf event with
      | none => exact ⟨0, fun _ impossible => by cases impossible⟩
      | some execution =>
        obtain ⟨fuel, bounded⟩ := grounded event mem_cons_self execution known
        exact ⟨fuel, fun other same => some.inj same ▸ bounded⟩
    obtain ⟨fuel, first⟩ := here
    refine ⟨max enough fuel, ?_⟩
    intro other member execution known
    cases mem_cons.mp member with
    | inl same => exact (first execution (same ▸ known)).mono (le_max_right _ _)
    | inr inRest => exact (all other inRest execution known).mono (le_max_left _ _)

/-- All readers of the action cache agree with all writers, as long as readers of entries with
directories are on the side that wrote them and the service does not store results without some of
what was produced. -/
theorem readers_agree (exchange : Exchange Hash) (actions : Actions Id) (store : BlobStore Hash)
    (addressed : Addressed exchange store) (events : List (Event Hash Id))
    (grounded : ∀ event ∈ events, ∀ execution, executionOf event = some execution →
      ∃ fuel, Grounded exchange fuel execution) :
    ∃ enough, ∀ context : ServiceContext Hash, enough ≤ context.fuel →
      Along exchange context actions (Sound exchange actions) ⟨store, fun _ => none⟩ events →
      Along exchange context actions (ReadsWell exchange context.fuel actions)
        ⟨store, fun _ => none⟩ events := by
  obtain ⟨enough, all⟩ := exists_fuel grounded
  refine ⟨enough, fun context atLeast sound => along_reads_well ?_ ?_ sound⟩
  · exact ⟨addressed, fun _ _ impossible => (by cases impossible),
      fun _ _ impossible => (by cases impossible)⟩
  · exact fun event member execution known => (all event member execution known).mono atLeast

end Events

/-! ## A concrete format -/

/-- Bytes are numbers. -/
instance instEncodableByte : Encodable UInt8 := ofLeftInverse UInt8.toNat UInt8.ofNat (by simp)

/-- Directories are numbers. -/
instance : Encodable (DirectoryMessage Str) :=
  ofLeftInverse (fun message => (message.files, message.symlinks, message.directories))
    (fun fields => ⟨fields.1, fields.2.1, fields.2.2⟩) (fun _ => rfl)

/-- Trees are numbers. -/
instance : Encodable (TreeMessage Str) :=
  ofLeftInverse (fun message => (message.root, message.children))
    (fun fields => ⟨fields.1, fields.2⟩) (fun _ => rfl)

/-- Blobs are their own hashes; messages are written as numbers after a tag. -/
def plainExchange (native : Bool) : Exchange Str where
  native := native
  blob := id
  blob_injective := Function.injective_id
  serializeDirectory message :=
    if message = ⟨[], [], []⟩ then [] else 0 :: replicate (encode message) 0
  parseDirectory
    | [] => some ⟨[], [], []⟩
    | tag :: rest => if tag = 0 then decode rest.length else none
  parse_serialize := by
    intro message
    by_cases isEmpty : message = ⟨[], [], []⟩
    · simp only [isEmpty, ↓reduceIte]
    · simp only [if_neg isEmpty, length_replicate, ↓reduceIte, encodek]
  serializeTree message := 1 :: replicate (encode message) 0
  parseTree
    | [] => some ⟨⟨[], [], []⟩, []⟩
    | tag :: rest => if tag = 1 then decode rest.length else none
  parse_serializeTree := by
    intro message
    simp only [length_replicate, ↓reduceIte, encodek]
  serialize_empty := rfl
  parseTree_nil := rfl

/-- An action with one output path. -/
def oneOutput : Actions Unit where
  spec := fun _ => ⟨.v2_1, ⟨[lit "out"], [], []⟩⟩
  inner := id
  spec_inner := fun _ => rfl
  legacy := fun _ impossible => by cases impossible

/-- An execution that produces the same output everywhere. -/
def producing (output : BuiltOutput Str) (blobs : List Str) : ActionRun Str where
  built := fun _ => some output
  exitCode := 0
  stdout := none
  stderr := none
  blobs := blobs

/-- A directory with one file. -/
def oneFile : DirectoryMessage Str := ⟨[(lit "file", [], false)], [], []⟩

/-- The events: an action runs locally, and a client asks for its result. -/
def runAndLookUp (execution : ActionRun Str) : List (Event Str Unit) :=
  [.runLocal () .cacheOutput execution, .lookUp ()]

theorem executable_obtained :
    ∃ enough, ∀ context : ServiceContext Str, enough ≤ context.fuel →
      Along (plainExchange false) context oneOutput
        (ReadsWell (plainExchange false) context.fuel oneOutput) ⟨fun _ => none, fun _ => none⟩
        (runAndLookUp (producing (.file [] true) [])) := by
  obtain ⟨enough, agree⟩ := readers_agree (plainExchange false) oneOutput (fun _ => none)
    (fun _ _ impossible => by cases impossible) (runAndLookUp (producing (.file [] true) [])) (by
      intro event member execution known
      refine ⟨0, ?_⟩
      cases mem_cons.mp member with
      | inl first =>
        subst first
        obtain rfl := some.inj known
        exact ⟨fun _ _ impossible => (by cases impossible),
          fun _ _ impossible => (by cases impossible)⟩
      | inr later =>
        rw [mem_singleton.mp later] at known
        cases known)
  refine ⟨enough, fun context atLeast => agree context atLeast ⟨⟨?_, ?_⟩, ⟨?_, ?_⟩, trivial⟩⟩
  · intro entry side read
    cases read
  · intro id execution impossible
    cases impossible
  · intro entry side read
    cases read
    exact .inr (.inr fun _ impossible => by cases impossible)
  · intro id execution impossible
    cases impossible

theorem parseTree_serializeDirectory : (plainExchange false).parseTree
    ((plainExchange false).serializeDirectory oneFile) = none := by
  have filled : oneFile ≠ ⟨[], [], []⟩ := by decide
  have tags : ¬ (0 : UInt8) = 1 := by decide
  simp only [plainExchange, if_neg filled, if_neg tags]

theorem grounded_directory {content : Str}
    (serialized : (plainExchange false).serializeDirectory oneFile = content) :
    Grounded (plainExchange false) 2 (producing (.directory content) [content]) where
  targets := fun _ _ impossible => by cases impossible
  trees := by
    intro path digest built _ store _ stored
    obtain rfl := BuiltOutput.directory.inj (some.inj built)
    have there : store content = some content := stored content mem_cons_self
    exact ⟨1, 1, ⟨oneFile, [], serialized ▸ there, .nil, rfl⟩, by decide⟩

theorem not_readsWell_of_mismatch {exchange : Exchange Str} (compatible : exchange.native = false)
    {content : Str} (mismatch : exchange.parseTree content = none) (context : ServiceContext Str) :
    ¬ ReadsWell exchange context.fuel oneOutput
      (CacheState.step exchange context oneOutput ⟨fun _ => none, fun _ => none⟩
        (.runLocal () .cacheOutput (producing (.directory (exchange.blob content)) [content])))
      (.lookUp ()) := by
  intro reads
  have there : storeBlobs exchange [content] (fun _ => none) (exchange.blob content) =
      some content :=
    (storeBlobs_grown (fun _ _ impossible => by cases impossible) [content]).2 content
      mem_cons_self
  obtain ⟨infos, obtained, _⟩ := reads _ _ rfl
  have uploaded : (uploadTrees exchange [lit "out"] [content]
      (storeBlobs exchange [content] fun _ => none)).1 = none := by
    simp only [uploadTrees, mismatch]
  have read : readOrdered (storeBlobs exchange [content] fun _ => none) [exchange.blob content] =
      [content] := List.filterMap_cons_some there
  unfold readEntry BazelResponse.populate BazelResponse.populateFetching at obtained
  rw [compatible] at obtained
  change Option.map _ (uploadTrees exchange [lit "out"]
      (readOrdered (storeBlobs exchange [content] fun _ => none) [exchange.blob content])
      (storeBlobs exchange [content] fun _ => none)).1 = some infos at obtained
  rw [read] at obtained
  rw [uploaded] at obtained
  cases obtained

theorem client_misses_directory :
    ¬ ∀ events : List (Event Str Unit),
      (∀ event ∈ events, ∀ execution, executionOf event = some execution →
        ∃ fuel, Grounded (plainExchange false) fuel execution) →
      ∃ enough, ∀ context : ServiceContext Str, enough ≤ context.fuel →
        Along (plainExchange false) context oneOutput
          (ReadsWell (plainExchange false) context.fuel oneOutput) ⟨fun _ => none, fun _ => none⟩
          events := by
  intro agree
  have mismatch := parseTree_serializeDirectory
  generalize serialized : (plainExchange false).serializeDirectory oneFile = content at mismatch
  obtain ⟨enough, all⟩ := agree (runAndLookUp (producing (.directory content) [content])) (by
    intro event member execution known
    refine ⟨2, ?_⟩
    cases mem_cons.mp member with
    | inl first =>
      subst first
      obtain rfl := some.inj known
      exact grounded_directory serialized
    | inr later =>
      rw [mem_singleton.mp later] at known
      cases known)
  have blob : (plainExchange false).blob content = content := rfl
  have reads := (all ⟨enough, id⟩ (le_refl enough)).2.1
  rw [← blob] at reads
  exact not_readsWell_of_mismatch rfl mismatch ⟨enough, id⟩ reads

end Jst.Verif.CachedResults
