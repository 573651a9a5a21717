import Jst.Execution.TreeReader
/-!
# Synchronising a remote store to another one

`BazelApi::ParallelRetrieveToCas` level by level: the direct entries of all missing trees are read
in parallel, these prerequisites are synchronised by a recursive call, then all missing objects are
transferred in parallel. One step is one request to one of the two stores, and which task makes the
next one is open. So is the order of an unordered set, whether the target confirms an upload, and
into which chunks the source splits a blob.
-/
namespace Jst.Execution

open Tree

variable {Hash : Type} [DecidableEq Hash]

/-- `BackMap::Make` by the digest — of several infos with one digest the first one is kept. -/
def backMap (infos : List (ObjectInfo Hash)) : List (ArtifactDigest Hash × ObjectInfo Hash) :=
  infos.foldl (fun map info =>
    if map.any fun entry => entry.1 = info.digest then map else map ++ [(info.digest, info)]) []

/-- `GetMissingDigests` at the target, for digests. -/
def missingDigests (target : Store Hash) (digests : List (ArtifactDigest Hash)) :
    List (ArtifactDigest Hash) :=
  digests.filter fun digest => digest ∉ target

/-- `BackMap::GetReferences` for the digests that are missing in the target. -/
def missingInfos (target : Store Hash) (infos : List (ObjectInfo Hash)) : List (ObjectInfo Hash) :=
  let map := backMap infos
  let missing := missingDigests target (map.map fst)
  (map.filter fun entry => entry.1 ∈ missing).map snd

/-- The local variables of an activation of `ParallelRetrieveToCasWithCache`. -/
structure Call (Hash : Type) where
  artifactsInfo : List (ObjectInfo Hash)
  missing : List (ObjectInfo Hash)

/-- A task that reads a tree. -/
inductive ReadTask (Hash : Type) where
  | read (info : ObjectInfo Hash)
  /-- About to upload symbolic links to the source, and then to report the result. -/
  | link (info : ObjectInfo Hash) (links : List (ArtifactDigest Hash))
    (result : Option (List (Str × ObjectInfo Hash)))

/-- The tree that a task reads. -/
def ReadTask.info : ReadTask Hash → ObjectInfo Hash
  | .read info => info
  | .link info _ _ => info

/-- A task that transfers an object. -/
inductive Transfer (Hash : Type) where
  /-- `::RetrieveToCas` of the object. -/
  | fetch (info : ObjectInfo Hash)
  /-- `::RetrieveToCasSplitted`, about to ask the source to split the blob. -/
  | split (info : ObjectInfo Hash)
  | chunks (info : ObjectInfo Hash) (chunks : List (ArtifactDigest Hash))
  /-- About to upload the chunks that could be read; whether all could be and were uploaded. -/
  | upload (info : ObjectInfo Hash) (chunks pending : List (ArtifactDigest Hash)) (success : Bool)
  | splice (info : ObjectInfo Hash) (chunks : List (ArtifactDigest Hash))

/-- The object that a task transfers. -/
def Transfer.info : Transfer Hash → ObjectInfo Hash
  | .fetch info => info
  | .split info => info
  | .chunks info _ => info
  | .upload info _ _ _ => info
  | .splice info _ => info

/-- Where the innermost activation of `ParallelRetrieveToCasWithCache` is. -/
inductive Phase (Hash : Type) where
  /-- It has been called with `all_artifacts_info`. -/
  | called (infos : List (ObjectInfo Hash))
  | reading (call : Call Hash) (tasks : List (ReadTask Hash))
    (prerequisites : List (ObjectInfo Hash)) (failure : Bool)
  | transferring (call : Call Hash) (tasks : List (Transfer Hash)) (failure : Bool)
  | returned (success : Bool)

/-- A state of the synchronisation. -/
structure State (Hash : Type) where
  source : Store Hash
  target : Store Hash
  done : List (ObjectInfo Hash)
  /-- The activations that wait for the recursive call, the innermost one first. -/
  callers : List (Call Hash)
  phase : Phase Hash

/-- `ParallelRetrieveToCas` — there is nothing to do if the target is this very store. -/
def parallelRetrieveToCas (sameApi : Bool) (source target : Store Hash)
    (infos : List (ObjectInfo Hash)) : State Hash where
  source := source
  target := target
  done := []
  callers := []
  phase := if sameApi then .returned true else .called infos

/-- The task for a missing object. -/
def transferTask (splitting : Bool) (info : ObjectInfo Hash) : Transfer Hash :=
  if splitting then .split info else .fetch info

/-- The tasks for the trees among the missing objects. -/
def readTasks (missing : List (ObjectInfo Hash)) : List (ReadTask Hash) :=
  (missing.filter fun info => info.type = .tree).map .read

/-- The step of a task that reads: the source after it, what it reports if it ends, and the task
that is left. -/
inductive ReadTask.Step (formats : Formats Hash) (source : Store Hash) :
    ReadTask Hash → Store Hash → Option (Option (List (ObjectInfo Hash))) →
    Option (ReadTask Hash) → Prop where
  | read (info : ObjectInfo Hash) :
    Step formats source (.read info) source none
      (some (.link info (formats.symlinkBlobs source info.digest)
        (formats.readDirectTreeEntries source info.digest)))
  | link (info : ObjectInfo Hash) (links stored : List (ArtifactDigest Hash))
    (result : Option (List (Str × ObjectInfo Hash))) (among : stored ⊆ links) :
    Step formats source (.link info links result) (stored ++ source)
      (some (result.map fun infos => infos.map snd)) none

/-- The step of a task that transfers: the stores after it, whether it succeeded if it ends, and the
task that is left. -/
inductive Transfer.Step (splits : ArtifactDigest Hash → List (ArtifactDigest Hash) → Prop)
    (source target : Store Hash) :
    Transfer Hash → Store Hash → Store Hash → Option Bool → Option (Transfer Hash) → Prop where
  /-- The blob has been read and uploaded; the target may fail to confirm. -/
  | fetch (info : ObjectInfo Hash) (confirmed : Bool) (readable : info.digest ∈ source) :
    Step splits source target (.fetch info) source (info.digest :: target) (some confirmed) none
  | fetchFails (info : ObjectInfo Hash) :
    Step splits source target (.fetch info) source target (some false) none
  | split (info : ObjectInfo Hash) (chunks : List (ArtifactDigest Hash))
    (readable : info.digest ∈ source) (possible : splits info.digest chunks) :
    Step splits source target (.split info) (chunks ++ source) target none
      (some (.chunks info chunks))
  | splitFails (info : ObjectInfo Hash) :
    Step splits source target (.split info) source target none (some (.fetch info))
  | chunks (info : ObjectInfo Hash) (chunks : List (ArtifactDigest Hash)) :
    Step splits source target (.chunks info chunks) source target none
      (some (.upload info chunks
        ((missingDigests target chunks.dedup).filter fun chunk => chunk ∈ source)
        ((missingDigests target chunks).all fun chunk => chunk ∈ source)))
  | upload (info : ObjectInfo Hash) (chunks before after : List (ArtifactDigest Hash))
    (chunk : ArtifactDigest Hash) (success : Bool) :
    Step splits source target (.upload info chunks (before ++ chunk :: after) success)
      source (chunk :: target) none (some (.upload info chunks (before ++ after) success))
  | uploadFails (info : ObjectInfo Hash) (chunks before after : List (ArtifactDigest Hash))
    (chunk : ArtifactDigest Hash) (success : Bool) :
    Step splits source target (.upload info chunks (before ++ chunk :: after) success)
      source target none (some (.upload info chunks (before ++ after) false))
  | uploaded (info : ObjectInfo Hash) (chunks : List (ArtifactDigest Hash)) :
    Step splits source target (.upload info chunks [] true) source target none
      (some (.splice info chunks))
  | notUploaded (info : ObjectInfo Hash) (chunks : List (ArtifactDigest Hash)) :
    Step splits source target (.upload info chunks [] false) source target (some false) none
  | splice (info : ObjectInfo Hash) (chunks : List (ArtifactDigest Hash)) :
    Step splits source target (.splice info chunks) source (info.digest :: target) (some true) none
  | spliceFails (info : ObjectInfo Hash) (chunks : List (ArtifactDigest Hash)) :
    Step splits source target (.splice info chunks) source target none (some (.fetch info))

/-- The prerequisites, with what a task reports. -/
def addReport (prerequisites : List (ObjectInfo Hash)) :
    Option (Option (List (ObjectInfo Hash))) → List (ObjectInfo Hash)
  | some (some infos) => prerequisites ++ infos
  | _ => prerequisites

/-- A step of the synchronisation. -/
inductive Step (formats : Formats Hash)
    (splits : ArtifactDigest Hash → List (ArtifactDigest Hash) → Prop) (splitting : Bool) :
    State Hash → State Hash → Prop where
  /-- The infos that are not done yet are collected in an unordered set; there are none. -/
  | nothing (source target : Store Hash) (done infos : List (ObjectInfo Hash))
    (callers : List (Call Hash)) (none : ∀ info ∈ infos, info ∈ done) :
    Step formats splits splitting ⟨source, target, done, callers, .called infos⟩
      ⟨source, target, done, callers, .returned true⟩
  | call (source target : Store Hash) (done infos artifactsInfo : List (ObjectInfo Hash))
    (callers : List (Call Hash)) (distinct : artifactsInfo.Nodup)
    (selected : ∀ info, info ∈ artifactsInfo ↔ info ∈ infos ∧ info ∉ done)
    (some : artifactsInfo ≠ []) :
    Step formats splits splitting ⟨source, target, done, callers, .called infos⟩
      ⟨source, target, done, callers, .reading ⟨artifactsInfo, missingInfos target artifactsInfo⟩
          (readTasks (missingInfos target artifactsInfo)) [] false⟩
  | read (source source' target : Store Hash) (done prerequisites : List (ObjectInfo Hash))
    (callers : List (Call Hash)) (call : Call Hash) (before after : List (ReadTask Hash))
    (task : ReadTask Hash) (failure : Bool) (report : Option (Option (List (ObjectInfo Hash))))
    (left : Option (ReadTask Hash)) (step : task.Step formats source source' report left) :
    Step formats splits splitting
      ⟨source, target, done, callers, .reading call (before ++ task :: after) prerequisites failure⟩
      ⟨source', target, done, callers,
        .reading call (before ++ left.toList ++ after) (addReport prerequisites report)
          (failure || report = some none)⟩
  | readFailed (source target : Store Hash) (done prerequisites : List (ObjectInfo Hash))
    (callers : List (Call Hash)) (call : Call Hash) :
    Step formats splits splitting
      ⟨source, target, done, callers, .reading call [] prerequisites true⟩
      ⟨source, target, done, callers, .returned false⟩
  /-- All trees have been read, and the prerequisites are synchronised. -/
  | recurse (source target : Store Hash) (done prerequisites : List (ObjectInfo Hash))
    (callers : List (Call Hash)) (call : Call Hash) :
    Step formats splits splitting
      ⟨source, target, done, callers, .reading call [] prerequisites false⟩
      ⟨source, target, done, call :: callers, .called prerequisites⟩
  | resume (source target : Store Hash) (done : List (ObjectInfo Hash))
    (callers : List (Call Hash)) (call : Call Hash) :
    Step formats splits splitting ⟨source, target, done, call :: callers, .returned true⟩
      ⟨source, target, done, callers,
        .transferring call (call.missing.map (transferTask splitting)) false⟩
  | abort (source target : Store Hash) (done : List (ObjectInfo Hash))
    (callers : List (Call Hash)) (call : Call Hash) :
    Step formats splits splitting ⟨source, target, done, call :: callers, .returned false⟩
      ⟨source, target, done, callers, .returned false⟩
  | transfer (source source' target target' : Store Hash) (done : List (ObjectInfo Hash))
    (callers : List (Call Hash)) (call : Call Hash) (before after : List (Transfer Hash))
    (task : Transfer Hash) (failure : Bool) (report : Option Bool) (left : Option (Transfer Hash))
    (step : task.Step splits source target source' target' report left) :
    Step formats splits splitting
      ⟨source, target, done, callers, .transferring call (before ++ task :: after) failure⟩
      ⟨source', target', done, callers,
        .transferring call (before ++ left.toList ++ after) (failure || report = some false)⟩
  | transferFailed (source target : Store Hash) (done : List (ObjectInfo Hash))
    (callers : List (Call Hash)) (call : Call Hash) :
    Step formats splits splitting ⟨source, target, done, callers, .transferring call [] true⟩
      ⟨source, target, done, callers, .returned false⟩
  | transferred (source target : Store Hash) (done : List (ObjectInfo Hash))
    (callers : List (Call Hash)) (call : Call Hash) :
    Step formats splits splitting ⟨source, target, done, callers, .transferring call [] false⟩
      ⟨source, target, call.artifactsInfo ++ done, callers, .returned true⟩

end Jst.Execution
