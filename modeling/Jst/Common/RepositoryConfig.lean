import Jst.Common.ArtifactDescription
import Jst.Utils.DfaMinimizer
/-!
# Repository configurations

`RepositoryConfig` holds the repositories of a build, and the keys under which results are cached
for them. The key of a repository is the digest of a graph of its descriptions and bindings;
bisimilar repositories are merged first. Keys and the map of duplicates are computed once and kept
until they are reset. The hash of the text of a description and the storing of the text of a graph
are parameters.
-/
namespace Jst.Repositories

open SortedMap DfaMinimizer Number

/-- `root_t` — where a root comes from. What is behind a precomputed root is only ever compared. -/
inductive Root (Precomputed : Type) where
  | directory (path : Str)
  /-- A tree of a git repository, by `FileRootHash`. -/
  | git (tree : Str)
  /-- `absent_root_t`. -/
  | absent (tree : Str)
  | precomputed (root : Precomputed)
deriving DecidableEq

structure FileRoot (Precomputed : Type) where
  root : Root Precomputed
  ignoreSpecial : Bool
deriving DecidableEq

variable {Precomputed Digest : Type}

def FileRoot.contentDescription (root : FileRoot Precomputed) : Option JsonValue :=
  let marker := if root.ignoreSpecial then lit "git tree ignore-special" else lit "git tree"
  match root.root with
  | .git tree => some (.array [.string marker, .string tree])
  | .absent tree => some (.array [.string marker, .string tree])
  | .directory _ => none
  | .precomputed _ => none

def FileRoot.getPrecomputedDescription (root : FileRoot Precomputed) : Option Precomputed :=
  match root.root with
  | .precomputed precomputed => some precomputed
  | _ => none

structure RepositoryInfo (Precomputed : Type) where
  workspaceRoot : FileRoot Precomputed
  targetRoot : FileRoot Precomputed
  ruleRoot : FileRoot Precomputed
  expressionRoot : FileRoot Precomputed
  /-- `name_mapping` — the global names of the bound repositories. -/
  nameMapping : Transitions
  ordered : Ascending nameMapping
  targetFileName : Str
  ruleFileName : Str
  expressionFileName : Str

/-- The fields of a JSON object. -/
abbrev Fields := List (Str × JsonValue)

/-- `BaseContentDescription` — the fields of the object, if all roots are content-fixed. -/
def RepositoryInfo.baseContentDescription (info : RepositoryInfo Precomputed) : Option Fields := do
  let wroot ← info.workspaceRoot.contentDescription
  let troot ← info.targetRoot.contentDescription
  let rroot ← info.ruleRoot.contentDescription
  let eroot ← info.expressionRoot.contentDescription
  return [(lit "expression_file_name", .string info.expressionFileName),
    (lit "expression_root", eroot), (lit "rule_file_name", .string info.ruleFileName),
    (lit "rule_root", rroot), (lit "target_file_name", .string info.targetFileName),
    (lit "target_root", troot), (lit "workspace_root", wroot)]

/-- `RepositoryData`; the key is an `AtomicValue`, which may not have been computed. -/
structure RepositoryData (Precomputed Digest : Type) where
  info : RepositoryInfo Precomputed
  baseDesc : Option Fields
  key : Option (Option Digest)
  described : baseDesc = info.baseContentDescription

/-- `RepositoryConfig`, with the repositories by name; the map of duplicates is an `AtomicValue`. -/
structure RepositoryConfig (Precomputed Digest : Type) where
  repos : List (Str × RepositoryData Precomputed Digest)
  ordered : Ascending repos
  duplicates : Option (List (Str × Str))

variable (config : RepositoryConfig Precomputed Digest)

def setInfo (repo : Str) (info : RepositoryInfo Precomputed) :
    RepositoryConfig Precomputed Digest where
  repos := insert repo
    { info := info, baseDesc := info.baseContentDescription, key := none, described := rfl }
    config.repos
  ordered := insert_ascending _ _ config.ordered
  duplicates := none

/-- `SetPrecomputedRoot`, for one root of a repository. -/
def replaceRoot [DecidableEq Precomputed] (root : Precomputed) (value candidate : FileRoot Precomputed) :
    FileRoot Precomputed :=
  if candidate.getPrecomputedDescription = some root then value else candidate

/-- `SetPrecomputedRoot`, the information on one repository. -/
def replaceRoots [DecidableEq Precomputed] (root : Precomputed) (value : FileRoot Precomputed)
    (info : RepositoryInfo Precomputed) : RepositoryInfo Precomputed :=
  { info with
    workspaceRoot := replaceRoot root value info.workspaceRoot
    targetRoot := replaceRoot root value info.targetRoot
    ruleRoot := replaceRoot root value info.ruleRoot
    expressionRoot := replaceRoot root value info.expressionRoot }

/-- `SetPrecomputedRoot`, whether a repository has the root. -/
def hasRoot [DecidableEq Precomputed] (root : Precomputed) (info : RepositoryInfo Precomputed) : Bool :=
  [info.workspaceRoot, info.targetRoot, info.ruleRoot, info.expressionRoot].any fun candidate =>
    candidate.getPrecomputedDescription = some root

/-- `SetPrecomputedRoot`, for one repository. -/
def setPrecomputedRootOf [DecidableEq Precomputed] (root : Precomputed) (value : FileRoot Precomputed)
    (config : RepositoryConfig Precomputed Digest) (name : Str) : RepositoryConfig Precomputed Digest :=
  match find name config.repos with
  | some data =>
    if hasRoot root data.info then setInfo config name (replaceRoots root value data.info) else config
  | none => config

/-- The orders in which the unordered maps are iterated over. -/
structure Orders (Precomputed Digest : Type) where
  repos : Iteration (Str × RepositoryData Precomputed Digest)
  buckets : Iteration (BucketId × Bucket)
  states : Iteration (Str × Transitions)
  keys : Iteration StatePairKey

def setPrecomputedRoot [DecidableEq Precomputed] (orders : Orders Precomputed Digest)
    (root : Precomputed) (value : FileRoot Precomputed) : RepositoryConfig Precomputed Digest :=
  ((orders.repos.arrange config.repos).map fst).foldl (setPrecomputedRootOf root value) config

/-- `DeduplicateRepo`, the map that is computed only once. -/
def computeDuplicates (contentId : Fields → Str) (orders : Orders Precomputed Digest) :
    Option (List (Str × Str)) := do
  let minimizer ← (orders.repos.arrange config.repos).foldlM
    (fun minimizer (entry : Str × RepositoryData Precomputed Digest) =>
      match entry.2.baseDesc with
      | some desc => addState minimizer entry.1 entry.2.info.nameMapping (contentId desc)
      | none => some minimizer)
    { buckets := [], bucketsByState := [] }
  computeBisimulation orders.buckets orders.states orders.keys minimizer

/-- `RepositoryConfig::DeduplicateRepo`, once the map has been computed. -/
def deduplicateRepo (duplicates : List (Str × Str)) (repo : Str) : Str :=
  (find repo duplicates).getD repo

/-- The description and the bindings of a repository, if it is there and content-fixed. -/
def contentFixed (repo : Str) : Option (Fields × Transitions) := do
  let data ← find repo config.repos
  let desc ← data.baseDesc
  return (desc, data.info.nameMapping)

/-- What `BuildGraphForRepository` passes down. -/
structure Numbering where
  graph : Fields
  idCounter : Nat
  repoIds : List (Str × Str)

/-- Why there is no id for a repository: it is missing or not content-fixed, or the recursion was
cut. -/
inductive Abort where
  | unfixed
  | depth

/-- `AddToGraphAndGetId`, the loop over the bindings. -/
def addBindings (add : Numbering → Str → Except Abort (Str × Numbering)) :
    Transitions → Fields → Numbering → Except Abort (Fields × Numbering)
  | [], bindings, numbering => .ok (bindings, numbering)
  | (localName, globalName) :: rest, bindings, numbering => do
    let (globalId, numbering) ← add numbering globalName
    addBindings add rest (insert localName (.string globalId) bindings) numbering

/-- `AddToGraphAndGetId`, the description with its bindings. -/
def withBindings (desc bindings : Fields) : JsonValue :=
  .object (insert (lit "bindings") (.object bindings) desc)

/-- `RepositoryConfig::AddToGraphAndGetId`. The first number bounds the depth of the recursion. -/
def addToGraphAndGetId (fixed : Str → Option (Fields × Transitions)) (duplicates : List (Str × Str)) :
    Nat → Numbering → Str → Except Abort (Str × Numbering)
  | 0, _, _ => .error .depth
  | depth + 1, numbering, repo =>
    let uniqueRepo := deduplicateRepo duplicates repo
    match find uniqueRepo numbering.repoIds with
    | some repoId => .ok (repoId, numbering)
    | none =>
      match fixed uniqueRepo with
      | none => .error .unfixed
      | some (desc, nameMapping) => do
        let repoId := decimal numbering.idCounter
        let (bindings, numbering) ← addBindings (addToGraphAndGetId fixed duplicates depth) nameMapping []
          { numbering with
            idCounter := numbering.idCounter + 1
            repoIds := emplace uniqueRepo repoId numbering.repoIds }
        return (repoId, { numbering with
          graph := insert repoId (withBindings desc bindings) numbering.graph })

def buildGraphForRepository (duplicates : List (Str × Str)) (repo : Str) : Except Abort JsonValue := do
  let (_, numbering) ← addToGraphAndGetId (contentFixed config) duplicates (config.repos.length + 1)
    { graph := [], idCounter := 0, repoIds := [] } repo
  return .object numbering.graph

/-- `AtomicValue::SetOnceAndGet` on the key of a repository. -/
def setKey (repo : Str) (data : RepositoryData Precomputed Digest) (key : Option Digest) :
    RepositoryConfig Precomputed Digest where
  repos := insert repo { data with key := some key } config.repos
  ordered := insert_ascending _ _ config.ordered
  duplicates := config.duplicates

/-- `DeduplicateRepo`, `SetOnceAndGet` on the map of duplicates. -/
def duplicatesOf (contentId : Fields → Str) (orders : Orders Precomputed Digest) :
    Option (List (Str × Str)) :=
  match config.duplicates with
  | some duplicates => some duplicates
  | none => computeDuplicates config contentId orders

/-- A configuration in which the map of duplicates is kept. -/
def setDuplicates (duplicates : List (Str × Str)) : RepositoryConfig Precomputed Digest where
  repos := config.repos
  ordered := config.ordered
  duplicates := some duplicates

/-- `RepositoryKey`, for the canonical name of a repository. -/
def keyOfUnique (storeBlob : JsonValue → Option Digest) (duplicates : List (Str × Str))
    (unique : Str) : Option (Option Digest × RepositoryConfig Precomputed Digest) :=
  match find unique config.repos with
  | none => some (none, config)
  | some data =>
    match data.key with
    | some key => some (key, config)
    | none =>
      match buildGraphForRepository config duplicates unique with
      | .ok graph => some (storeBlob graph, setKey config unique data (storeBlob graph))
      | .error .unfixed => some (none, setKey config unique data none)
      | .error .depth => none

/-- `RepositoryConfig::RepositoryKey`, and the configuration with what has been kept. -/
def repositoryKey (contentId : Fields → Str) (storeBlob : JsonValue → Option Digest)
    (orders : Orders Precomputed Digest) (repo : Str) :
    Option (Option Digest × RepositoryConfig Precomputed Digest) := do
  let duplicates ← duplicatesOf config contentId orders
  keyOfUnique (setDuplicates config duplicates) storeBlob duplicates (deduplicateRepo duplicates repo)

end Jst.Repositories
