import Jst.Data.SortedMap
import Jst.Remote.Digest
import Mathlib.Data.List.Sort
/-!
# Actions on the wire

`bazel_action.cpp` and `bazel_msg_factory.cpp` write an action that is to be executed remotely as an
`Action` message and a `Command` message, and upload both; `execution_server.cpp` reads the messages
from its storage and creates a local action from them. What the server executes is a
`LocalAction`, what the client wanted is a `BazelAction`. Storing and serialising are the parts of
`Protobuf` and `Storage`; contexts, loggers and callbacks are left out.
-/
namespace Jst.Remote

open SortedMap

/-! ## Actions -/

inductive CacheFlag where
  | cacheOutput
  | doNotCacheOutput
  | fromCacheOnly
  | pretendCached
deriving DecidableEq

def CacheFlag.cacheEnabled (flag : CacheFlag) : Bool := flag == cacheOutput || flag == fromCacheOnly

/-- `IExecutionAction::kDefaultTimeout`, in milliseconds. -/
def defaultTimeout : Int := 1000

/-- A message with a name and a value: `Command_EnvironmentVariable` and `Platform_Property`. -/
structure NamedValue where
  name : Str
  value : Str
deriving DecidableEq

def createMessageVectorFromMap (input : List (Str × Str)) : List NamedValue :=
  input.map fun entry => { name := entry.1, value := entry.2 }

/-- `RequestMode` of both kinds of actions; `BazelAction` does not have the last one. -/
inductive RequestMode where
  | bestEffort
  | v20
  | v21
deriving DecidableEq

/-- `std::sort` on strings. -/
def sortStrings (texts : List Str) : List Str := texts.insertionSort (· ≤ ·)

structure BazelAction where
  rootDigest : ArtifactDigest
  cmdline : List Str
  cwd : Str
  outputFiles : List Str
  outputDirs : List Str
  /-- Output files and directories, where the server does not need them separately. -/
  outputPaths : List Str
  envVars : List NamedValue
  properties : List NamedValue
  mode : RequestMode
  timeout : Int := defaultTimeout
  cacheFlag : CacheFlag := .cacheOutput

structure LocalAction where
  rootDigest : ArtifactDigest
  cmdline : List Str
  cwd : Str
  outputFiles : List Str
  outputDirs : List Str
  outputPaths : List Str
  envVars : List (Str × Str)
  properties : List NamedValue
  mode : RequestMode
  timeout : Int := defaultTimeout
  cacheFlag : CacheFlag := .cacheOutput

/-- The output paths that a local action collects: with the interface of version 2.1 the paths, else
the files and the directories. -/
def LocalAction.requestedPaths (action : LocalAction) : List Str :=
  match action.mode with
  | .v21 => action.outputPaths
  | .v20 | .bestEffort => action.outputFiles ++ action.outputDirs

/-! ## Creating a remote action -/

structure Version where
  major : Int
  minor : Int
  patch : Int
deriving DecidableEq

/-- `operator<` of versions. -/
def Version.before (left right : Version) : Bool :=
  left.major < right.major || (left.major == right.major &&
    (left.minor < right.minor || (left.minor == right.minor && left.patch < right.patch)))

/-- `kVersion2dot1`. -/
def version2dot1 : Version := { major := 2, minor := 1, patch := 0 }

/-- The versions among the capabilities of a server. -/
structure Capabilities where
  lowApiVersion : Version
  highApiVersion : Version

/-- The arguments of `CreateAction`. -/
structure ActionArguments where
  rootDigest : ArtifactDigest
  command : List Str
  cwd : Str
  outputFiles : List Str
  outputDirs : List Str
  envVars : List (Str × Str)
  properties : List (Str × Str)
  envVarsAscending : Ascending envVars
  propertiesAscending : Ascending properties

/-- `BazelAction::BazelAction`. -/
def BazelAction.new (arguments : ActionArguments) (bestEffort : Bool) : BazelAction where
  rootDigest := arguments.rootDigest
  cmdline := arguments.command
  cwd := arguments.cwd
  outputFiles := sortStrings arguments.outputFiles
  outputDirs := sortStrings arguments.outputDirs
  outputPaths :=
    if bestEffort then
      sortStrings (sortStrings arguments.outputFiles ++ sortStrings arguments.outputDirs)
    else []
  envVars := createMessageVectorFromMap arguments.envVars
  properties := createMessageVectorFromMap arguments.properties
  mode := if bestEffort then .bestEffort else .v20

def BazelApi.createAction (hashType : HashType) (capabilities : Capabilities)
    (arguments : ActionArguments) (forceLegacy : Bool) : BazelAction :=
  -- fall back to legacy for native
  let forceLegacy := if hashType.isNative then true else forceLegacy
  let bestEffort := !forceLegacy
  let bestEffort :=
    if !forceLegacy && capabilities.highApiVersion.before version2dot1 then false else bestEffort
  let bestEffort :=
    -- the server does not support version 2.0
    if !bestEffort && !capabilities.lowApiVersion.before version2dot1 then true else bestEffort
  BazelAction.new arguments bestEffort

/-! ## Messages -/

structure Command where
  platform : List NamedValue
  workingDirectory : Str
  arguments : List Str
  outputFiles : List Str
  outputDirectories : List Str
  outputPaths : List Str
  environmentVariables : List NamedValue
deriving DecidableEq

structure Duration where
  seconds : Int
  nanos : Int
deriving DecidableEq

structure Action where
  doNotCache : Bool
  timeout : Duration
  commandDigest : BazelDigest
  inputRootDigest : BazelDigest
  platform : List NamedValue
deriving DecidableEq

/-- A hash function. -/
structure HashFunction where
  type : HashType
  hashBlobData : Str → Str
  valid : ∀ content, validateInput type (hashBlobData content) false = none

/-- `ArtifactBlob`, kept in memory. -/
structure ArtifactBlob where
  digest : ArtifactDigest
  content : Str

/-- `ArtifactBlob::FromMemory`, for a file. -/
def ArtifactBlob.fromMemory (hashFunction : HashFunction) (content : Str) : ArtifactBlob where
  digest :=
    { hashInfo :=
        { hash := hashFunction.hashBlobData content
          hashType := hashFunction.type
          isTree := false
          valid := hashFunction.valid content }
      size := UInt64.ofNat content.length }
  content := content

/-- The serialisation of the two messages, which loses nothing. -/
structure Protobuf where
  /-- `SerializeMessage` for commands. -/
  serializeCommand : Command → Option Str
  /-- `SerializeMessage` for actions. -/
  serializeAction : Action → Option Str
  /-- `ParseFromIstream` for commands. -/
  parseCommand : Str → Option Command
  /-- `ParseFromIstream` for actions. -/
  parseAction : Str → Option Action
  parse_serializeCommand : ∀ command content, serializeCommand command = some content →
    parseCommand content = some command
  parse_serializeAction : ∀ action content, serializeAction action = some content →
    parseAction content = some action

structure ActionDigestRequest where
  commandLine : List Str
  cwd : Str
  outputFiles : List Str
  outputDirs : List Str
  outputPaths : List Str
  envVars : List NamedValue
  properties : List NamedValue
  execDir : ArtifactDigest
  timeout : Int
  skipActionCache : Bool

section Client

variable (protobuf : Protobuf) (hashFunction : HashFunction)

/-- The message of `CreateCommandBundle`. -/
def commandMessage (request : ActionDigestRequest) : Command where
  platform := request.properties
  workingDirectory := request.cwd
  arguments := request.commandLine
  outputFiles := request.outputFiles
  outputDirectories := request.outputDirs
  outputPaths := request.outputPaths
  environmentVariables := request.envVars

def createCommandBundle (request : ActionDigestRequest) : Option ArtifactBlob := do
  let content ← protobuf.serializeCommand (commandMessage request)
  some (ArtifactBlob.fromMemory hashFunction content)

/-- The duration of a timeout in milliseconds: `duration_cast` rounds towards zero. -/
def timeoutDuration (timeout : Int) : Duration where
  seconds := timeout.tdiv 1000
  nanos := (timeout - timeout.tdiv 1000 * 1000) * 1000000

def createActionBundle (command : ArtifactDigest) (request : ActionDigestRequest) :
    Option ArtifactBlob := do
  let commandDigest ← ArtifactDigestFactory.toBazel command
  let inputRootDigest ← ArtifactDigestFactory.toBazel request.execDir
  let content ← protobuf.serializeAction
    { doNotCache := request.skipActionCache
      timeout := timeoutDuration request.timeout
      commandDigest := commandDigest
      inputRootDigest := inputRootDigest
      platform := request.properties }
  some (ArtifactBlob.fromMemory hashFunction content)

/-- `BazelMsgFactory::CreateActionDigestFromCommandLine` — the digest of the action and the blobs
that are stored. -/
def createActionDigestFromCommandLine (request : ActionDigestRequest) :
    Option (ArtifactDigest × List ArtifactBlob) := do
  let command ← createCommandBundle protobuf hashFunction request
  let action ← createActionBundle protobuf hashFunction command.digest request
  some (action.digest, [command, action])

/-- `BazelAction::CreateBundlesForAction` — the digest on the wire and the blobs to upload. -/
def BazelAction.createBundlesForAction (action : BazelAction) (doNotCache : Bool) :
    Option (BazelDigest × List ArtifactBlob) := do
  let (digest, blobs) ← createActionDigestFromCommandLine protobuf hashFunction
    { commandLine := action.cmdline
      cwd := action.cwd
      outputFiles := action.outputFiles
      outputDirs := action.outputDirs
      outputPaths := action.outputPaths
      envVars := action.envVars
      properties := action.properties
      execDir := action.rootDigest
      timeout := action.timeout
      skipActionCache := doNotCache }
  some (← ArtifactDigestFactory.toBazel digest, blobs)

/-- `BazelAction::Execute` — what is uploaded before an execution is requested. -/
def BazelAction.upload (action : BazelAction) : Option (BazelDigest × List ArtifactBlob) :=
  action.createBundlesForAction protobuf hashFunction (!action.cacheFlag.cacheEnabled)

end Client

/-! ## The execution service -/

/-- What the service reads from its storage. -/
structure Storage where
  /-- The content at `BlobPath`, for what is not executable. -/
  blobPath : ArtifactDigest → Option Str
  /-- The content at `TreePath`. -/
  treePath : ArtifactDigest → Option Str

section Server

variable (protobuf : Protobuf) (hashType : HashType) (storage : Storage)

/-- The input root, if it is stored. -/
def Storage.inputRoot (digest : ArtifactDigest) : Option Str :=
  if hashType.isNative then storage.treePath digest else storage.blobPath digest

def toBazelAction (actionDigest : ArtifactDigest) : Except Str Action := do
  match storage.blobPath actionDigest with
  | none =>
    .error (lit "could not retrieve blob " ++ actionDigest.hashInfo.hash ++ lit " from cas")
  | some content =>
    match protobuf.parseAction content with
    | none => .error (lit "failed to parse action from blob " ++ actionDigest.hashInfo.hash)
    | some action =>
      let inputRootDigest ← ArtifactDigestFactory.fromBazel hashType action.inputRootDigest
      match storage.inputRoot hashType inputRootDigest with
      | none =>
        .error (lit "could not retrieve input root " ++ inputRootDigest.hashInfo.hash ++
          lit " from cas")
      | some _ => .ok action

def toBazelCommand (action : Action) : Except Str Command := do
  let commandDigest ← ArtifactDigestFactory.fromBazel hashType action.commandDigest
  match storage.blobPath commandDigest with
  | none =>
    .error (lit "Could not retrieve blob " ++ commandDigest.hashInfo.hash ++ lit " from cas")
  | some content =>
    match protobuf.parseCommand content with
    | none => .error (lit "Failed to parse command from blob " ++ commandDigest.hashInfo.hash)
    | some command => .ok command

end Server

/-- `LocalAction::LocalAction`, with output files and directories. -/
def LocalAction.new (rootDigest : ArtifactDigest) (command : List Str) (cwd : Str)
    (outputFiles outputDirs : List Str) (envVars properties : List (Str × Str))
    (bestEffort : Bool) : LocalAction where
  rootDigest := rootDigest
  cmdline := command
  cwd := cwd
  outputFiles := sortStrings outputFiles
  outputDirs := sortStrings outputDirs
  outputPaths :=
    if bestEffort then sortStrings (sortStrings outputFiles ++ sortStrings outputDirs) else []
  envVars := envVars
  properties := createMessageVectorFromMap properties
  mode := if bestEffort then .bestEffort else .v20

/-- `LocalAction::LocalAction`, with output paths. -/
def LocalAction.ofPaths (rootDigest : ArtifactDigest) (command : List Str) (cwd : Str)
    (outputPaths : List Str) (envVars properties : List (Str × Str)) : LocalAction where
  rootDigest := rootDigest
  cmdline := command
  cwd := cwd
  outputFiles := []
  outputDirs := []
  outputPaths := sortStrings outputPaths
  envVars := envVars
  properties := createMessageVectorFromMap properties
  mode := .v21

/-- `LocalApi::CreateAction`, with output files and directories. -/
def LocalApi.createAction (hashType : HashType) (rootDigest : ArtifactDigest) (command : List Str)
    (cwd : Str) (outputFiles outputDirs : List Str) (envVars properties : List (Str × Str))
    (forceLegacy : Bool) : LocalAction :=
  -- fall back to legacy for native
  let forceLegacy := if hashType.isNative then true else forceLegacy
  LocalAction.new rootDigest command cwd outputFiles outputDirs envVars properties (!forceLegacy)

/-- `insert_or_assign` for each message. -/
def assignAll (messages : List NamedValue) (map : List (Str × Str)) : List (Str × Str) :=
  messages.foldl (fun map message => insert message.name message.value map) map

/-- `ExecutionServiceImpl::ToIExecutionAction`. The properties are assigned to the environment, and
the timeout is not read. -/
def toIExecutionAction (hashType : HashType) (action : Action) (command : Command)
    (legacyClient : Bool) : Option LocalAction :=
  match ArtifactDigestFactory.fromBazel hashType action.inputRootDigest with
  | .error _ => none
  | .ok rootDigest =>
    let envVars := assignAll command.environmentVariables []
    let messages :=
      if action.platform.isEmpty then command.platform  -- still used by legacy clients
      else action.platform
    let properties := []
    let envVars := assignAll messages envVars
    let executionAction :=
      if legacyClient then
        LocalApi.createAction hashType rootDigest command.arguments command.workingDirectory
          command.outputFiles command.outputDirectories envVars properties true
      else
        LocalAction.ofPaths rootDigest command.arguments command.workingDirectory
          command.outputPaths envVars properties
    some { executionAction with
      cacheFlag := if action.doNotCache then .doNotCacheOutput else .cacheOutput }

/-- `ExecutionServiceImpl::Execute`, up to the execution of the action. -/
def reconstruct (protobuf : Protobuf) (hashType : HashType) (storage : Storage)
    (actionDigest : BazelDigest) : Except Str LocalAction := do
  let digest ← ArtifactDigestFactory.fromBazel hashType actionDigest
  let action ← toBazelAction protobuf hashType storage digest
  let command ← toBazelCommand protobuf hashType storage action
  -- without output paths the client uses the legacy interface
  let legacyClient := command.outputPaths.isEmpty
  match toIExecutionAction hashType action command legacyClient with
  | none => .error (lit "Could not create action from " ++ digest.hashInfo.hash)
  | some executionAction => .ok executionAction

end Jst.Remote
