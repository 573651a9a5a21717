import Jst.Common.ArtifactDescription
import Jst.Execution.ActionResult
import Jst.Utils.Path
import Mathlib.Logic.Function.Basic
/-!
# Action results between local actions, the execution service and remote clients

Local actions and the execution service write entries of one action cache; local actions read them,
and so do clients of the service. In compatible mode the directories in a result are named by
`Directory` messages or by `Tree` messages, which contain them with all their subdirectories. The
serialisations are parameters. An entry carries which execution it is from, which the code does not
store: it is what readers should obtain.
-/
namespace Jst.Execution

/-- A `Directory` message. -/
structure DirectoryMessage (Hash : Type) where
  files : List (Str × Hash × Bool)
  symlinks : List (Str × Str)
  directories : List (Str × Hash)
deriving DecidableEq

/-- A `Tree` message. -/
structure TreeMessage (Hash : Type) where
  root : DirectoryMessage Hash
  children : List (DirectoryMessage Hash)
deriving DecidableEq

/-- The hash mode and the formats of messages. -/
structure Exchange (Hash : Type) where
  /-- `ProtocolTraits::IsNative`. -/
  native : Bool
  blob : Str → Hash
  blob_injective : Function.Injective blob
  /-- `Directory::SerializeAsString`. -/
  serializeDirectory : DirectoryMessage Hash → Str
  /-- `MessageFromString<Directory>`. -/
  parseDirectory : Str → Option (DirectoryMessage Hash)
  parse_serialize : ∀ message, parseDirectory (serializeDirectory message) = some message
  /-- `Tree::SerializeAsString`. -/
  serializeTree : TreeMessage Hash → Str
  /-- `MessageFromString<Tree>`. -/
  parseTree : Str → Option (TreeMessage Hash)
  parse_serializeTree : ∀ message, parseTree (serializeTree message) = some message
  serialize_empty : serializeDirectory ⟨[], [], []⟩ = []
  parseTree_nil : parseTree [] = some ⟨⟨[], [], []⟩, []⟩

/-- The blobs in the storage. -/
abbrev BlobStore (Hash : Type) := Hash → Option Str

/-- The digest and type of an artifact. -/
abbrev ArtifactInfo (Hash : Type) := Hash × ObjectType

abbrev ArtifactInfos (Hash : Type) := List (Str × ArtifactInfo Hash)

/-- `emplace` — what is there is not replaced. -/
def emplace {Value : Type} (item : Str × Value) (map : List (Str × Value)) : List (Str × Value) :=
  if map.any (·.1 = item.1) then map else map ++ [item]

/-- Several items are emplaced. -/
def emplaceAll {Value : Type} (items map : List (Str × Value)) : List (Str × Value) :=
  items.foldl (fun map item => emplace item map) map

/-- The value at a path. -/
def valueAt {Value : Type} (path : Str) (map : List (Str × Value)) : Option Value :=
  (map.find? (·.1 = path)).map (·.2)

variable {Hash : Type} [DecidableEq Hash] (exchange : Exchange Hash)

/-- A blob is stored. -/
def storeBlob (store : BlobStore Hash) (content : Str) : BlobStore Hash :=
  update store (exchange.blob content) (some content)

/-- Blobs are stored. -/
def storeBlobs (contents : List Str) (store : BlobStore Hash) : BlobStore Hash :=
  contents.foldl (storeBlob exchange) store

/-! ## Reading results -/

section Reading

omit [DecidableEq Hash]

/-- The files in a result. -/
def fileInfos (result : ActionResult Hash) : ArtifactInfos Hash :=
  result.outputFiles.map fun file =>
    (file.path, file.digest, if file.isExecutable then .executable else .file)

/-- Symbolic links in a result. -/
def linkInfos (links : List OutputSymlink) : ArtifactInfos Hash :=
  links.map fun link => (link.path, exchange.blob link.target, .symlink)

/-- All symbolic links in a result, field by field. -/
def allLinks (result : ActionResult Hash) : List OutputSymlink :=
  result.outputSymlinks ++ result.outputFileSymlinks ++ result.outputDirectorySymlinks

/-- The directories in a result, each named by its own digest. -/
def directoryInfos (result : ActionResult Hash) : ArtifactInfos Hash :=
  result.outputDirectories.map fun directory => (directory.path, directory.treeDigest, .tree)

/-- The message of a directory in the storage. -/
def readMessage (store : BlobStore Hash) (digest : Hash) : Option (DirectoryMessage Hash) :=
  (store digest).bind exchange.parseDirectory

/-- `std::all_of`, where a check may fail. -/
def allValid (check : Hash → Option Bool) : List Hash → Option Bool
  | [] => some true
  | digest :: rest =>
    match check digest with
    | none => none
    | some false => some false
    | some true => allValid check rest

/-- `LocalCasReader::IsDirectoryValid` — whether no link leads upwards, down to a depth. -/
def isDirectoryValid (store : BlobStore Hash) : Nat → Hash → Option Bool
  | 0, _ => none
  | fuel + 1, digest =>
    match readMessage exchange store digest with
    | none => none
    | some message =>
      if message.symlinks.any fun link => !Path.pathIsNonUpwards link.2 then some false
      else allValid (isDirectoryValid store fuel) (message.directories.map (·.2))

/-- The checks of output directories, which end at the first that is not valid. -/
def checkDirectories (fuel : Nat) (store : BlobStore Hash) (upwards : Bool)
    (result : ActionResult Hash) : Option Bool :=
  if upwards || exchange.native then some upwards
  else (allValid (isDirectoryValid exchange store fuel)
    (result.outputDirectories.map (·.treeDigest))).map (!·)

/-- `LocalResponse::Populate` — the artifacts, and whether some link leads upwards. -/
def LocalResponse.populate (fuel : Nat) (store : BlobStore Hash) (result : ActionResult Hash) :
    Option (ArtifactInfos Hash × Bool) :=
  let upwards := !exchange.native &&
    (allLinks result).any fun link => !Path.pathIsNonUpwards link.target
  match checkDirectories exchange fuel store upwards result with
  | none => none
  | some upwards =>
    some (emplaceAll (fileInfos result ++ linkInfos exchange (allLinks result) ++
      directoryInfos result) [], upwards)

/-- `LocalResponse::DirectorySymlinks` — an error if only the field of v2.1 is populated. -/
def LocalResponse.directorySymlinks (result : ActionResult Hash) : Option (List Str) :=
  if !result.outputSymlinks.isEmpty && result.outputFileSymlinks.isEmpty &&
      result.outputDirectorySymlinks.isEmpty then none
  else some (result.outputDirectorySymlinks.map (·.path))

/-- `BazelNetworkReader::ReadOrdered` — the blobs that could be fetched, in the given order. -/
def readOrdered (fetch : Hash → Option Str) (digests : List Hash) : List Str :=
  digests.filterMap fetch

end Reading

/-- The blobs of a directory message that are uploaded: the message and its links. -/
def messageBlobs (message : DirectoryMessage Hash) : List Str :=
  exchange.serializeDirectory message :: message.symlinks.map (·.2)

/-- `UploadTreeMessageDirectories` — the digest of the root; directories and links are stored. -/
def uploadTreeMessageDirectories (tree : TreeMessage Hash) (store : BlobStore Hash) :
    Hash × BlobStore Hash :=
  (exchange.blob (exchange.serializeDirectory tree.root),
    storeBlobs exchange ((tree.root :: tree.children).flatMap (messageBlobs exchange)) store)

/-- The loop of `BazelResponse::Populate` over the trees that were read, each for the path at its
position. -/
def uploadTrees : List Str → List Str → BlobStore Hash →
    Option (ArtifactInfos Hash) × BlobStore Hash
  | path :: paths, content :: contents, store =>
    match exchange.parseTree content with
    | none => (none, store)
    | some tree =>
      let (digest, store) := uploadTreeMessageDirectories exchange tree store
      let (others, store) := uploadTrees paths contents store
      (others.map ((path, digest, .tree) :: ·), store)
  | _, _, store => (some [], store)

/-- `BazelResponse::Populate` — what a client obtains, who uploads links and directories and for
whom some trees can be fetched. -/
def BazelResponse.populateFetching (fetch : Hash → Option Str) (store : BlobStore Hash)
    (result : ActionResult Hash) : Option (ArtifactInfos Hash) × BlobStore Hash :=
  let infos := fileInfos result ++ linkInfos exchange (allLinks result)
  if exchange.native then (some (emplaceAll (infos ++ directoryInfos result) []), store)
  else
    let store := storeBlobs exchange ((allLinks result).map (·.target)) store
    let contents := readOrdered fetch (result.outputDirectories.map (·.treeDigest))
    let (trees, store) :=
      uploadTrees exchange (result.outputDirectories.map (·.path)) contents store
    (trees.map fun trees => emplaceAll (infos ++ trees) [], store)

/-- `BazelResponse::Populate` — where all that is stored can be fetched. -/
def BazelResponse.populate (store : BlobStore Hash) (result : ActionResult Hash) :
    Option (ArtifactInfos Hash) × BlobStore Hash :=
  BazelResponse.populateFetching exchange
    (storeBlobs exchange ((allLinks result).map (·.target)) store) store result

/-! ## Writing results -/

/-- The loop of `LocalCasReader::MakeTree` — directories to check, and those collected so far. -/
def makeTreeLoop (store : BlobStore Hash) :
    Nat → List Hash → List (Hash × DirectoryMessage Hash) → Option (List (Hash × DirectoryMessage Hash))
  | 0, _, _ => none
  | _ + 1, [], found => some found
  | fuel + 1, current :: rest, found =>
    if found.any (·.1 = current) then makeTreeLoop store fuel rest found
    else
      match readMessage exchange store current with
      | none => none
      | some message =>
        makeTreeLoop store fuel ((message.directories.map (·.2)).reverse ++ rest)
          (found ++ [(current, message)])

/-- `LocalCasReader::MakeTree` — the children are sorted by their hash, which is left to a
parameter. -/
def makeTree (fuel : Nat) (sort : List (Hash × DirectoryMessage Hash) →
    List (Hash × DirectoryMessage Hash)) (store : BlobStore Hash) (root : Hash) :
    Option (TreeMessage Hash) :=
  match makeTreeLoop exchange store fuel [root] [] with
  | none => none
  | some found =>
    match found.find? (·.1 = root) with
    | none => none
    | some message =>
      some ⟨message.2, (sort (found.filter (·.1 ≠ root))).map (·.2)⟩

/-- What the service is run with. -/
structure ServiceContext (Hash : Type) where
  fuel : Nat
  sort : List (Hash × DirectoryMessage Hash) → List (Hash × DirectoryMessage Hash)

def toBazelOutputDirectory (context : ServiceContext Hash) (path : Str) (digest : Hash)
    (store : BlobStore Hash) : Option (OutputDirectory Hash) × BlobStore Hash :=
  if exchange.native then (some ⟨path, digest⟩, store)
  else
    match makeTree exchange context.fuel context.sort store digest with
    | none => (none, store)
    | some tree =>
      let content := exchange.serializeTree tree
      (some ⟨path, exchange.blob content⟩, storeBlob exchange store content)

/-- One artifact in `ToBazelActionResult`. -/
def addArtifact (context : ServiceContext Hash) (dirSymlinks : Option (List Str))
    (legacyClient : Bool) (artifact : Str × ArtifactInfo Hash) (result : ActionResult Hash)
    (store : BlobStore Hash) : Option (ActionResult Hash) × BlobStore Hash :=
  let (path, digest, type) := artifact
  match type with
  | .tree =>
    match toBazelOutputDirectory exchange context path digest store with
    | (none, store) => (none, store)
    | (some directory, store) =>
      (some { result with outputDirectories := result.outputDirectories ++ [directory] }, store)
  | .symlink =>
    match store digest with
    | none => (none, store)
    | some target =>
      let link : OutputSymlink := ⟨path, target⟩
      let result :=
        if legacyClient then result
        else { result with outputSymlinks := result.outputSymlinks ++ [link] }
      match dirSymlinks with
      | none => (some result, store)
      | some paths =>
        if path ∈ paths then
          (some { result with
            outputDirectorySymlinks := result.outputDirectorySymlinks ++ [link] }, store)
        else
          (some { result with outputFileSymlinks := result.outputFileSymlinks ++ [link] }, store)
  | .file => (some (LocalAction.addOutput path (.file digest false) result), store)
  | .executable => (some (LocalAction.addOutput path (.file digest true) result), store)

/-- `ToBazelActionResult`, for the artifacts in some order. -/
def addArtifacts (context : ServiceContext Hash) (dirSymlinks : Option (List Str))
    (legacyClient : Bool) : ArtifactInfos Hash → ActionResult Hash → BlobStore Hash →
    Option (ActionResult Hash) × BlobStore Hash
  | [], result, store => (some result, store)
  | artifact :: rest, result, store =>
    match addArtifact exchange context dirSymlinks legacyClient artifact result store with
    | (none, store) => (none, store)
    | (some result, store) => addArtifacts context dirSymlinks legacyClient rest result store

/-- `ToBazelExecuteResponse` — the result for a client. The streams are stored again. -/
def toBazelExecuteResponse (context : ServiceContext Hash) (legacyClient : Bool)
    (localResult : ActionResult Hash) (store : BlobStore Hash) :
    Option (ActionResult Hash) × BlobStore Hash :=
  match LocalResponse.populate exchange context.fuel store localResult with
  | none => (none, store)
  | some (artifacts, _) =>
    let dirSymlinks := LocalResponse.directorySymlinks localResult
    if legacyClient && dirSymlinks.isNone then (none, store)
    else
      addArtifacts exchange context dirSymlinks legacyClient artifacts
        (.empty localResult.stdoutDigest localResult.stderrDigest localResult.exitCode) store

/-! ## The cache -/

inductive CacheFlag where
  | cacheOutput
  | doNotCacheOutput
  | fromCacheOnly
  | pretendCached
deriving DecidableEq

def CacheFlag.cacheEnabled : CacheFlag → Bool
  | .cacheOutput | .fromCacheOnly => true
  | _ => false

def CacheFlag.executionEnabled : CacheFlag → Bool
  | .fromCacheOnly => false
  | _ => true

/-- What an action asks for, which its digest determines. -/
structure ActionSpec where
  mode : RequestMode
  outputs : OutputPaths

/-- An execution of an action. -/
structure ActionRun (Hash : Type) where
  built : Str → Option (BuiltOutput Hash)
  exitCode : Int
  stdout : Option Hash
  stderr : Option Hash
  /-- The messages of directories and targets of links that are stored with the outputs. -/
  blobs : List Str

/-- Who wrote an entry. -/
inductive Writer where
  | localAction
  | service
deriving DecidableEq

/-- An entry of the action cache, and where it is from. -/
structure CacheEntry (Hash : Type) where
  result : ActionResult Hash
  writer : Writer
  spec : ActionSpec
  execution : ActionRun Hash

/-- The storage that local actions and the service share. -/
structure CacheState (Hash Id : Type) where
  store : BlobStore Hash
  entries : Id → Option (CacheEntry Hash)

omit [DecidableEq Hash] in
/-- `ActionResultContainsExpectedOutputs`, for either kind of request. -/
def containsExpectedOutputs (spec : ActionSpec) (result : ActionResult Hash) : Bool :=
  let files := result.outputFiles.map (·.path)
  let oldLinks := (result.outputFileSymlinks ++ result.outputDirectorySymlinks).map (·.path)
  let directories := result.outputDirectories.map (·.path)
  if spec.mode = .v2_1 then
    spec.outputs.paths.all fun path =>
      path ∈ files ++ result.outputSymlinks.map (·.path) ++ oldLinks ++ directories
  else
    (spec.outputs.files.all fun path => path ∈ files ++ oldLinks) &&
      spec.outputs.dirs.all fun path => path ∈ directories

variable {Id : Type} [DecidableEq Id]

/-- Symbolic links have to be non-upwards in native mode. -/
def validSymlink (target : Str) : Bool := !exchange.native || Path.pathIsNonUpwards target

/-- `LocalAction::Run` — the result is stored if all outputs could be collected. -/
def LocalAction.run (id : Id) (spec : ActionSpec) (flag : CacheFlag) (execution : ActionRun Hash)
    (state : CacheState Hash Id) : CacheEntry Hash × CacheState Hash Id :=
  let (collected, result) := collectAndStoreOutputs (validSymlink exchange) execution.built
    spec.mode spec.outputs (.empty execution.stdout execution.stderr execution.exitCode)
  let entry : CacheEntry Hash := ⟨result, .localAction, spec, execution⟩
  let store := storeBlobs exchange execution.blobs state.store
  let entries :=
    if collected ∧ flag = .cacheOutput then update state.entries id (some entry)
    else state.entries
  (entry, ⟨store, entries⟩)

omit [DecidableEq Hash] [DecidableEq Id] in
/-- The entry that a local action is served from. -/
def LocalAction.cached (id : Id) (spec : ActionSpec) (flag : CacheFlag)
    (state : CacheState Hash Id) : Option (CacheEntry Hash) :=
  if flag.cacheEnabled then
    (state.entries id).filter fun entry =>
      entry.result.exitCode = 0 && containsExpectedOutputs spec entry.result
  else none

/-- `LocalAction::Execute` — from the cache, or by running. -/
def LocalAction.execute (id : Id) (spec : ActionSpec) (flag : CacheFlag)
    (execution : ActionRun Hash) (state : CacheState Hash Id) :
    Option (CacheEntry Hash) × CacheState Hash Id :=
  match LocalAction.cached id spec flag state with
  | some entry => (some entry, state)
  | none =>
    if flag.executionEnabled then
      let (entry, state) := LocalAction.run exchange id spec flag execution state
      (some entry, state)
    else (none, state)

/-- The local action that the service runs: in legacy mode if there are no output paths. -/
def serviceSpec (spec : ActionSpec) : ActionSpec :=
  { spec with mode := if spec.outputs.paths.isEmpty then .v2_0 else .v2_1 }

/-- `ExecutionServiceImpl::Execute` — through a local action with an id of its own. -/
def serviceExecute (context : ServiceContext Hash) (id inner : Id) (spec : ActionSpec)
    (doNotCache : Bool) (execution : ActionRun Hash) (state : CacheState Hash Id) :
    Option (CacheEntry Hash) × CacheState Hash Id :=
  let legacyClient := spec.outputs.paths.isEmpty
  let flag := if doNotCache then .doNotCacheOutput else .cacheOutput
  match LocalAction.execute exchange inner (serviceSpec spec) flag execution state with
  | (none, state) => (none, state)
  | (some response, state) =>
    match toBazelExecuteResponse exchange context legacyClient response.result state.store with
    | (none, store) => (none, { state with store })
    | (some result, store) =>
      let entry : CacheEntry Hash := ⟨result, .service, response.spec, response.execution⟩
      let entries :=
        if result.exitCode = 0 ∧ !doNotCache then update state.entries id (some entry)
        else state.entries
      (some entry, ⟨store, entries⟩)

/-! ## Sequences of executions and look-ups -/

/-- What the digests of actions stand for. -/
structure Actions (Id : Type) where
  spec : Id → ActionSpec
  inner : Id → Id
  spec_inner : ∀ id, spec (inner id) = serviceSpec (spec id)
  legacy : ∀ id, (spec id).mode = .v2_0 → (spec id).outputs.paths = []

/-- An event at the storage; an execution is what would happen if the action were run. -/
inductive Event (Hash Id : Type) where
  /-- `LocalAction::Execute`. -/
  | runLocal (id : Id) (flag : CacheFlag) (execution : ActionRun Hash)
  /-- `ExecutionServiceImpl::Execute`. -/
  | runService (id : Id) (doNotCache : Bool) (execution : ActionRun Hash)
  /-- `ActionCacheServiceImpl::GetActionResult`, for a client who populates the result. -/
  | lookUp (id : Id)

variable (context : ServiceContext Hash) (actions : Actions Id)

/-- The storage after an event. -/
def CacheState.step (state : CacheState Hash Id) : Event Hash Id → CacheState Hash Id
  | .runLocal id flag execution =>
    (LocalAction.execute exchange id (actions.spec id) flag execution state).2
  | .runService id doNotCache execution =>
    (serviceExecute exchange context id (actions.inner id) (actions.spec id) doNotCache execution
      state).2
  | .lookUp id =>
    match state.entries id with
    | none => state
    | some entry =>
      { state with store := (BazelResponse.populate exchange state.store entry.result).2 }

omit [DecidableEq Hash] [DecidableEq Id] in
/-- The entry that an event reads, and on which side. -/
def entryRead (state : CacheState Hash Id) : Event Hash Id → Option (CacheEntry Hash × Writer)
  | .runLocal id flag _ =>
    (LocalAction.cached id (actions.spec id) flag state).map (·, .localAction)
  | .runService id doNotCache _ =>
    (LocalAction.cached (actions.inner id) (serviceSpec (actions.spec id))
      (if doNotCache then .doNotCacheOutput else .cacheOutput) state).map (·, .localAction)
  | .lookUp id => (state.entries id).map (·, .service)

/-- What a reader on some side obtains from an entry. -/
def readEntry (fuel : Nat) (state : CacheState Hash Id) (entry : CacheEntry Hash) :
    Writer → Option (ArtifactInfos Hash)
  | .localAction => (LocalResponse.populate exchange fuel state.store entry.result).map (·.1)
  | .service => (BazelResponse.populate exchange state.store entry.result).1

end Jst.Execution
