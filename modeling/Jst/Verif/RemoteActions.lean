import Jst.Remote.Action
/-!
# A remotely executed action is the action requested

The execution service reads back every field that the client wrote, but it assigns the platform
properties to the environment instead of the properties of the action, and it does not read the
timeout, so that the action has the default one. The action is the requested one exactly when it has
no platform properties and the default timeout.
-/
namespace Jst.Verif.RemoteActions

open Remote SortedMap

/-- The server executes what the client wanted. -/
structure SameAction (wanted : BazelAction) (executed : LocalAction) : Prop where
  cmdline : executed.cmdline = wanted.cmdline
  cwd : executed.cwd = wanted.cwd
  envVars : createMessageVectorFromMap executed.envVars = wanted.envVars
  properties : executed.properties = wanted.properties
  timeout : executed.timeout = wanted.timeout
  rootDigest : executed.rootDigest = wanted.rootDigest
  cacheFlag : executed.cacheFlag.cacheEnabled = wanted.cacheFlag.cacheEnabled
  outputs : ∀ path, path ∈ executed.requestedPaths ↔
    path ∈ wanted.outputFiles ∨ path ∈ wanted.outputDirs

/-! ## Reading back what was written -/

theorem assignAll_createMessageVectorFromMap (input map : List (Str × Str)) :
    assignAll (createMessageVectorFromMap input) map =
      input.foldl (fun result entry => insert entry.1 entry.2 result) map :=
  List.foldl_map

variable {input : List (Str × Str)}

theorem assignAll_nil (ordered : Ascending input) :
    assignAll (createMessageVectorFromMap input) [] = input := by
  rw [assignAll_createMessageVectorFromMap]
  exact foldl_insert_ascending (nil_append input ▸ ordered)

theorem createMessageVectorFromMap_eq_nil : createMessageVectorFromMap input = [] ↔ input = [] :=
  List.map_eq_nil_iff

theorem mem_sortStrings {text : Str} {texts : List Str} : text ∈ sortStrings texts ↔ text ∈ texts :=
  List.mem_insertionSort _

section Upload

variable {protobuf : Protobuf} {hashFunction : HashFunction} {action : BazelAction}
  {digest : BazelDigest} {blobs : List ArtifactBlob}

/-- The command that an action is written as. -/
def sentCommand (action : BazelAction) : Command where
  platform := action.properties
  workingDirectory := action.cwd
  arguments := action.cmdline
  outputFiles := action.outputFiles
  outputDirectories := action.outputDirs
  outputPaths := action.outputPaths
  environmentVariables := action.envVars

/-- The action message that an action is written as. -/
def sentAction (action : BazelAction) (commandDigest inputRootDigest : BazelDigest) : Remote.Action where
  doNotCache := !action.cacheFlag.cacheEnabled
  timeout := timeoutDuration action.timeout
  commandDigest := commandDigest
  inputRootDigest := inputRootDigest
  platform := action.properties

/-- What is uploaded are the two messages. -/
structure Uploaded (protobuf : Protobuf) (hashFunction : HashFunction) (action : BazelAction)
    (digest : BazelDigest) (command message : ArtifactBlob) : Prop where
  command_eq : command = ArtifactBlob.fromMemory hashFunction command.content
  message_eq : message = ArtifactBlob.fromMemory hashFunction message.content
  digest_eq : ArtifactDigestFactory.toBazel message.digest = some digest
  parseCommand : protobuf.parseCommand command.content = some (sentCommand action)
  parseAction : ∃ commandDigest rootDigest,
    ArtifactDigestFactory.toBazel command.digest = some commandDigest ∧
    ArtifactDigestFactory.toBazel action.rootDigest = some rootDigest ∧
    protobuf.parseAction message.content = some (sentAction action commandDigest rootDigest)

theorem upload_some (sent : action.upload protobuf hashFunction = some (digest, blobs)) :
    ∃ command message, blobs = [command, message] ∧
      Uploaded protobuf hashFunction action digest command message := by
  simp only [BazelAction.upload, BazelAction.createBundlesForAction,
    createActionDigestFromCommandLine, createCommandBundle, createActionBundle,
    bind_eq_bind, bind_eq_some_iff, some.injEq, Prod.mk.injEq] at sent
  obtain ⟨⟨_, _⟩, ⟨_, ⟨commandText, writtenCommand, rfl⟩, _, ⟨commandDigest, commandWire, rootDigest,
    rootWire, actionText, writtenAction, rfl⟩, rfl, rfl⟩, _, wire, rfl, rfl⟩ := sent
  exact ⟨_, _, rfl,
    { command_eq := rfl
      message_eq := rfl
      digest_eq := wire
      parseCommand := protobuf.parse_serializeCommand _ _ writtenCommand
      parseAction := ⟨commandDigest, rootDigest, commandWire, rootWire,
        protobuf.parse_serializeAction _ _ writtenAction⟩ }⟩

/-- The action that the service creates from the messages. -/
def executedAction (hashType : Remote.HashType) (action : BazelAction) : LocalAction :=
  let envVars := assignAll action.properties (assignAll action.envVars [])
  let executed :=
    if action.outputPaths.isEmpty then
      LocalApi.createAction hashType action.rootDigest action.cmdline action.cwd action.outputFiles
        action.outputDirs envVars [] true
    else LocalAction.ofPaths action.rootDigest action.cmdline action.cwd action.outputPaths envVars []
  { executed with
    cacheFlag := if !action.cacheFlag.cacheEnabled then .doNotCacheOutput else .cacheOutput }

theorem toIExecutionAction_sent {commandDigest rootDigest : BazelDigest}
    (root : ArtifactDigestFactory.toBazel action.rootDigest = some rootDigest) :
    toIExecutionAction action.rootDigest.hashInfo.hashType (sentAction action commandDigest rootDigest)
        (sentCommand action) action.outputPaths.isEmpty =
      some (executedAction action.rootDigest.hashInfo.hashType action) := by
  have messages : (if (sentAction action commandDigest rootDigest).platform.isEmpty then
      (sentCommand action).platform else (sentAction action commandDigest rootDigest).platform) =
        action.properties := ite_self _
  have created : ArtifactDigestFactory.fromBazel action.rootDigest.hashInfo.hashType
      (sentAction action commandDigest rootDigest).inputRootDigest = .ok action.rootDigest :=
    ArtifactDigestFactory.fromBazel_toBazel root
  unfold toIExecutionAction
  rw [created]
  simp only [messages]
  rfl

theorem reconstruct_uploaded {storage : Storage} {command message : ArtifactBlob}
    (uploaded : Uploaded protobuf hashFunction action digest command message)
    (type : action.rootDigest.hashInfo.hashType = hashFunction.type)
    (hasCommand : storage.blobPath command.digest = some command.content)
    (hasMessage : storage.blobPath message.digest = some message.content)
    (hasRoot : (storage.inputRoot hashFunction.type action.rootDigest).isSome = true) :
    reconstruct protobuf hashFunction.type storage digest =
      .ok (executedAction hashFunction.type action) := by
  obtain ⟨commandDigest, rootDigest, commandWire, rootWire, parsed⟩ := uploaded.parseAction
  have messageType : message.digest.hashInfo.hashType = hashFunction.type := by
    rw [uploaded.message_eq]
    rfl
  have commandType : command.digest.hashInfo.hashType = hashFunction.type := by
    rw [uploaded.command_eq]
    rfl
  have readDigest : ArtifactDigestFactory.fromBazel hashFunction.type digest = .ok message.digest :=
    messageType ▸ ArtifactDigestFactory.fromBazel_toBazel uploaded.digest_eq
  have readCommandDigest : ArtifactDigestFactory.fromBazel hashFunction.type commandDigest =
      .ok command.digest :=
    commandType ▸ ArtifactDigestFactory.fromBazel_toBazel commandWire
  have readRootDigest : ArtifactDigestFactory.fromBazel hashFunction.type rootDigest =
      .ok action.rootDigest :=
    type ▸ ArtifactDigestFactory.fromBazel_toBazel rootWire
  obtain ⟨content, found⟩ := isSome_iff_exists.mp hasRoot
  have readAction : toBazelAction protobuf hashFunction.type storage message.digest =
      .ok (sentAction action commandDigest rootDigest) := by
    simp only [toBazelAction, hasMessage, parsed]
    show (ArtifactDigestFactory.fromBazel hashFunction.type rootDigest >>= _) = _
    rw [readRootDigest]
    simp only [bind, Except.bind, found]
  have readCommand : toBazelCommand protobuf hashFunction.type storage
      (sentAction action commandDigest rootDigest) = .ok (sentCommand action) := by
    show (ArtifactDigestFactory.fromBazel hashFunction.type commandDigest >>= _) = _
    rw [readCommandDigest]
    simp only [bind, Except.bind, hasCommand, uploaded.parseCommand]
  have create : toIExecutionAction hashFunction.type (sentAction action commandDigest rootDigest)
      (sentCommand action) (sentCommand action).outputPaths.isEmpty =
      some (executedAction hashFunction.type action) := type ▸ toIExecutionAction_sent rootWire
  unfold reconstruct
  rw [readDigest]
  show (toBazelAction protobuf hashFunction.type storage message.digest >>= _) = _
  rw [readAction]
  show (toBazelCommand protobuf hashFunction.type storage _ >>= _) = _
  rw [readCommand]
  simp only [bind, Except.bind, create]

end Upload

/-! ## What the service executes -/

theorem mem_outputPaths {arguments : ActionArguments} {bestEffort : Bool} {path : Str}
    (used : (BazelAction.new arguments bestEffort).outputPaths.isEmpty = false) :
    path ∈ (BazelAction.new arguments bestEffort).outputPaths ↔
      path ∈ (BazelAction.new arguments bestEffort).outputFiles ∨
        path ∈ (BazelAction.new arguments bestEffort).outputDirs := by
  cases bestEffort with
  | false => cases used
  | true => exact mem_sortStrings.trans mem_append

theorem mem_requestedPaths {hashType : Remote.HashType} {arguments : ActionArguments}
    {bestEffort : Bool} {timeout : Int} {flag : CacheFlag} {path : Str} : let action :=
      { BazelAction.new arguments bestEffort with timeout := timeout, cacheFlag := flag }
    path ∈ (executedAction hashType action).requestedPaths ↔
      path ∈ action.outputFiles ∨ path ∈ action.outputDirs := by
  intro action
  cases empty : (BazelAction.new arguments bestEffort).outputPaths.isEmpty with
  | true =>
    have legacy : (executedAction hashType action).requestedPaths =
        sortStrings action.outputFiles ++ sortStrings action.outputDirs := by
      simp only [executedAction, action, empty, ↓reduceIte, LocalAction.requestedPaths,
        LocalApi.createAction, ite_self, LocalAction.new, Bool.not_true, false_eq_true]
    rw [legacy, mem_append, mem_sortStrings, mem_sortStrings]
  | false =>
    have paths : (executedAction hashType action).requestedPaths =
        sortStrings action.outputPaths := by
      simp only [executedAction, action, empty, false_eq_true, ↓reduceIte,
        LocalAction.requestedPaths, LocalAction.ofPaths]
    rw [paths, mem_sortStrings]
    exact mem_outputPaths empty

theorem sameAction_executedAction {hashType : Remote.HashType} {arguments : ActionArguments}
    {bestEffort : Bool} {timeout : Int} {flag : CacheFlag} : let action :=
      { BazelAction.new arguments bestEffort with timeout := timeout, cacheFlag := flag }
    SameAction action (executedAction hashType action) ↔
      arguments.properties = [] ∧ timeout = defaultTimeout := by
  intro action
  have cmdline : (executedAction hashType action).cmdline = action.cmdline := by
    unfold executedAction
    cases action.outputPaths.isEmpty <;> rfl
  have cwd : (executedAction hashType action).cwd = action.cwd := by
    unfold executedAction
    cases action.outputPaths.isEmpty <;> rfl
  have rootDigest : (executedAction hashType action).rootDigest = action.rootDigest := by
    unfold executedAction
    cases action.outputPaths.isEmpty <;> rfl
  have properties : (executedAction hashType action).properties = [] := by
    unfold executedAction
    cases action.outputPaths.isEmpty <;> rfl
  have defaulted : (executedAction hashType action).timeout = defaultTimeout := by
    unfold executedAction
    cases action.outputPaths.isEmpty <;> rfl
  have envVars : (executedAction hashType action).envVars =
      assignAll action.properties (assignAll action.envVars []) := by
    unfold executedAction
    cases action.outputPaths.isEmpty <;> rfl
  have cacheFlag : (executedAction hashType action).cacheFlag.cacheEnabled = flag.cacheEnabled := by
    show (if !flag.cacheEnabled then CacheFlag.doNotCacheOutput else .cacheOutput).cacheEnabled = _
    cases flag <;> rfl
  constructor
  · intro same
    have none : createMessageVectorFromMap arguments.properties = [] :=
      same.properties.symm.trans properties
    exact ⟨createMessageVectorFromMap_eq_nil.mp none, same.timeout.symm.trans defaulted⟩
  · intro required
    have written : action.properties = [] := createMessageVectorFromMap_eq_nil.mpr required.1
    exact
      { cmdline := cmdline
        cwd := cwd
        envVars := by
          rw [envVars, written]
          exact congrArg createMessageVectorFromMap (assignAll_nil arguments.envVarsAscending)
        properties := properties.trans written.symm
        timeout := defaulted.trans required.2.symm
        rootDigest := rootDigest
        cacheFlag := cacheFlag
        outputs := fun _ => mem_requestedPaths }

theorem createAction_eq_new (hashType : Remote.HashType) (capabilities : Capabilities)
    (arguments : ActionArguments) (forceLegacy : Bool) :
    ∃ bestEffort, BazelApi.createAction hashType capabilities arguments forceLegacy =
      BazelAction.new arguments bestEffort :=
  ⟨_, rfl⟩

/-- The service executes the requested action exactly if it has no platform properties and the
default timeout: for every action, timeout and cache flag, whatever the server supports. -/
theorem reconstruct_same_iff {protobuf : Protobuf} {hashFunction : HashFunction}
    {capabilities : Capabilities} {arguments : ActionArguments} {forceLegacy : Bool} {timeout : Int}
    {flag : CacheFlag} {storage : Storage} {digest : BazelDigest} {blobs : List ArtifactBlob}
    (type : arguments.rootDigest.hashInfo.hashType = hashFunction.type)
    (sent : ({ BazelApi.createAction hashFunction.type capabilities arguments forceLegacy with
        timeout := timeout, cacheFlag := flag } : BazelAction).upload protobuf hashFunction =
      some (digest, blobs))
    (stored : ∀ blob ∈ blobs, storage.blobPath blob.digest = some blob.content)
    (hasRoot : (storage.inputRoot hashFunction.type arguments.rootDigest).isSome = true) :
    ∃ executed, reconstruct protobuf hashFunction.type storage digest = .ok executed ∧
      (SameAction
          { BazelApi.createAction hashFunction.type capabilities arguments forceLegacy with
            timeout := timeout, cacheFlag := flag } executed ↔
        arguments.properties = [] ∧ timeout = defaultTimeout) := by
  obtain ⟨bestEffort, created⟩ :=
    createAction_eq_new hashFunction.type capabilities arguments forceLegacy
  rw [created] at sent ⊢
  obtain ⟨command, message, rfl, uploaded⟩ := upload_some sent
  exact ⟨_, reconstruct_uploaded uploaded type (stored command mem_cons_self)
    (stored message (mem_cons_of_mem _ mem_cons_self)) hasRoot, sameAction_executedAction⟩

/-! ## Two requests -/

/-- A hash function for two blobs. -/
def twoHashes : HashFunction where
  type := .gitSHA1
  hashBlobData content := if content = [0] then replicate 40 48 else replicate 40 49
  valid content := by
    split
    · decide
    · decide

/-- The digest of an input root. -/
def someRoot : ArtifactDigest where
  hashInfo := { hash := replicate 40 50, hashType := .gitSHA1, isTree := true, valid := by decide }
  size := 0

/-- A request with the given platform properties. -/
def printRequest (properties : List (Str × Str)) (ascending : Ascending properties) :
    ActionArguments where
  rootDigest := someRoot
  command := [lit "echo"]
  cwd := []
  outputFiles := [lit "out"]
  outputDirs := []
  envVars := []
  properties := properties
  envVarsAscending := List.Pairwise.nil
  propertiesAscending := ascending

/-- The action of a request, to a server of version 2.0. -/
def printAction (properties : List (Str × Str)) (ascending : Ascending properties) : BazelAction :=
  { BazelApi.createAction .gitSHA1
      { lowApiVersion := { major := 2, minor := 0, patch := 0 }
        highApiVersion := { major := 2, minor := 0, patch := 0 } }
      (printRequest properties ascending) false with
    timeout := 1000, cacheFlag := .cacheOutput }

/-- The digest of a blob of one byte on the wire. -/
def wireDigest (content : Str) : BazelDigest :=
  BazelDigestFactory.create (ArtifactBlob.fromMemory twoHashes content).digest.hashInfo 1

/-- The digest of the input root on the wire. -/
def wireRoot : BazelDigest := BazelDigestFactory.create someRoot.hashInfo 0

/-- A serialisation of the two messages of an action. -/
def twoMessages (action : BazelAction) : Protobuf where
  serializeCommand command := if command = sentCommand action then some [0] else none
  serializeAction message :=
    if message = sentAction action (wireDigest [0]) wireRoot then some [1] else none
  parseCommand _ := some (sentCommand action)
  parseAction _ := some (sentAction action (wireDigest [0]) wireRoot)
  parse_serializeCommand command content written := by
    split at written
    · next same => rw [same]
    · cases written
  parse_serializeAction message content written := by
    split at written
    · next same => rw [same]
    · cases written

/-- A storage with two blobs and the input root. -/
def twoBlobs : Storage where
  blobPath digest := if digest.hashInfo.hash = replicate 40 48 then some [0] else some [1]
  treePath _ := some []

theorem platform_property_lost :
    let action := printAction [(lit "os", lit "linux")] (pairwise_singleton _ _)
    action.upload (twoMessages action) twoHashes =
        some (wireDigest [1], [ArtifactBlob.fromMemory twoHashes [0],
          ArtifactBlob.fromMemory twoHashes [1]]) ∧
      ∃ executed, reconstruct (twoMessages action) .gitSHA1 twoBlobs (wireDigest [1]) = .ok executed ∧
        ¬SameAction action executed :=
  ⟨rfl, _, rfl, fun same => absurd same.properties (by decide)⟩

theorem print_same :
    ∃ executed, reconstruct (twoMessages (printAction [] .nil)) .gitSHA1 twoBlobs (wireDigest [1]) =
        .ok executed ∧
      (SameAction (printAction [] .nil) executed ↔ ([] : List (Str × Str)) = [] ∧
        (1000 : Int) = defaultTimeout) :=
  @reconstruct_same_iff (twoMessages (printAction [] .nil)) twoHashes _ (printRequest [] .nil) false
    1000 .cacheOutput twoBlobs (wireDigest [1])
    [ArtifactBlob.fromMemory twoHashes [0], ArtifactBlob.fromMemory twoHashes [1]] rfl rfl
    (by
      intro blob member
      rcases mem_cons.mp member with rfl | later
      · rfl
      · rw [mem_singleton.mp later]
        rfl)
    rfl

end Jst.Verif.RemoteActions
