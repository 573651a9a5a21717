import Mathlib.Data.List.Dedup
import Jst.Execution.CommonApi
import Jst.Verif.DirectoryTrees
import Jst.Verif.TreeOverlay
/-!
# Trees are uploaded content first

A blob is put into a container only after all that is below it has been uploaded, so every tree
object is stored after its subtrees. A subtree that is no directory of the tree, but an artifact, is
not uploaded; it has to be there before.
-/
namespace Jst.Verif.TreeUploads

open Tree Execution Execution.ExecutionApi DirectoryTrees

variable {Hash World Artifact : Type}

/-- Every stored tree has all its subtrees stored. -/
def Closed (treeId : GitTree Hash → Hash) (stored : ArtifactDigest Hash → Prop) : Prop :=
  ∀ content, stored ⟨treeId content, true⟩ → ∀ entry ∈ content, entry.type = .tree →
    stored ⟨entry.hash, true⟩

/-- What a remote store answers, and what it does on an upload. -/
structure Behaves (api : ExecutionApi Hash World) (stored : World → ArtifactDigest Hash → Prop) :
    Prop where
  available : ∀ digest world, (api.isAvailable digest world).1 = true → stored world digest
  available_same : ∀ digest world, stored (api.isAvailable digest world).2 = stored world
  missing : ∀ digests world, ∀ digest ∈ digests, digest ∉ (api.getMissingDigests digests world).1 →
    stored world digest
  missing_same : ∀ digests world, stored (api.getMissingDigests digests world).2 = stored world
  upload_subset : ∀ blobs world, (api.upload blobs world).2.1 ⊆ blobs
  upload_stored : ∀ blobs world digest, stored (api.upload blobs world).2.2 digest ↔
    stored world digest ∨ ∃ blob ∈ (api.upload blobs world).2.1, blob.digest = digest
  upload_success : ∀ blobs world, (api.upload blobs world).1 = true → ∀ blob ∈ blobs,
    stored (api.upload blobs world).2.2 blob.digest

/-- What is stored after some uploads. -/
def after (start : ArtifactDigest Hash → Prop) (uploaded : List (ArtifactBlob Hash))
    (digest : ArtifactDigest Hash) : Prop :=
  start digest ∨ ∃ blob ∈ uploaded, blob.digest = digest

/-- Every upload is one of a tree object whose subtrees are stored before. -/
def ContentFirst (treeId : GitTree Hash → Hash) (start : ArtifactDigest Hash → Prop)
    (uploaded : List (ArtifactBlob Hash)) : Prop :=
  ∀ front blob back, uploaded = front ++ blob :: back →
    blob.digest = ⟨treeId blob.content, true⟩ ∧
    ∀ entry ∈ blob.content, entry.type = .tree → after start front ⟨entry.hash, true⟩

theorem ContentFirst.closed {treeId : GitTree Hash → Hash} {start : ArtifactDigest Hash → Prop}
    {uploaded front back : List (ArtifactBlob Hash)} (first : ContentFirst treeId start uploaded)
    (noCollision : Function.Injective treeId) (closed : Closed treeId start)
    (split : uploaded = front ++ back) : Closed treeId (after start front) := by
  intro content stored entry inside tree
  cases stored with
  | inl old => exact .inl (closed content old entry inside tree)
  | inr new =>
    obtain ⟨blob, member, same⟩ := new
    obtain ⟨before, behind, rfl⟩ := append_of_mem member
    have here := first before blob (behind ++ back) (by rw [split]; simp)
    rw [here.1] at same
    have equal : blob.content = content := noCollision (ArtifactDigest.mk.inj same).1
    subst equal
    obtain old | ⟨other, found, digest⟩ := here.2 entry inside tree
    · exact .inl old
    · exact .inr ⟨other, mem_append_left _ found, digest⟩

/-- The state of an upload that has been content first so far. -/
structure Good (treeId : GitTree Hash → Hash) (stored : World → ArtifactDigest Hash → Prop)
    (start : ArtifactDigest Hash → Prop) (state : UploadState Hash World) : Prop where
  stored_iff : ∀ digest, stored state.world digest ↔ after start state.uploaded digest
  first : ContentFirst treeId start state.uploaded

/-- A tree object that may be uploaded. -/
structure Ready (treeId : GitTree Hash → Hash) (stored : ArtifactDigest Hash → Prop)
    (blob : ArtifactBlob Hash) : Prop where
  digest : blob.digest = ⟨treeId blob.content, true⟩
  subtrees : ∀ entry ∈ blob.content, entry.type = .tree → stored ⟨entry.hash, true⟩

variable {treeId : GitTree Hash → Hash} {stored : World → ArtifactDigest Hash → Prop}
  {start : ArtifactDigest Hash → Prop} {api : ExecutionApi Hash World}
  {state : UploadState Hash World}

variable {blob : ArtifactBlob Hash}

theorem Ready.mono {few many : ArtifactDigest Hash → Prop}
    (ready : Ready treeId few blob) (more : ∀ digest, few digest → many digest) :
    Ready treeId many blob where
  digest := ready.digest
  subtrees entry inside tree := more _ (ready.subtrees entry inside tree)

/-- What a part of an upload keeps: it goes on content first, and nothing is lost. -/
structure Continues (treeId : GitTree Hash → Hash) (stored : World → ArtifactDigest Hash → Prop)
    (start : ArtifactDigest Hash → Prop) (before after : UploadState Hash World) : Prop where
  good : Good treeId stored start after
  grows : ∀ digest, stored before.world digest → stored after.world digest

theorem Continues.trans {first second third : UploadState Hash World}
    (front : Continues treeId stored start first second)
    (back : Continues treeId stored start second third) :
    Continues treeId stored start first third where
  good := back.good
  grows digest old := back.grows digest (front.grows digest old)

theorem Good.continues (good : Good treeId stored start state) :
    Continues treeId stored start state state := ⟨good, fun _ => id⟩

theorem Good.sameStored (good : Good treeId stored start state) {world : World}
    (same : stored world = stored state.world) :
    Continues treeId stored start state { state with world := world } where
  good := ⟨fun digest => by rw [same]; exact good.stored_iff digest, good.first⟩
  grows digest old := by rw [same]; exact old

theorem continues_uploadBlobs (behaves : Behaves api stored) (good : Good treeId stored start state)
    {blobs : List (ArtifactBlob Hash)}
    (ready : ∀ blob ∈ blobs, Ready treeId (stored state.world) blob) :
    Continues treeId stored start state (api.uploadBlobs blobs state).2 ∧
      ((api.uploadBlobs blobs state).1 = true → ∀ blob ∈ blobs,
        stored (api.uploadBlobs blobs state).2.world blob.digest) := by
  have storedAfter := behaves.upload_stored blobs state.world
  refine ⟨⟨⟨fun digest => ?_, fun front blob back split => ?_⟩, fun digest old => ?_⟩,
    behaves.upload_success blobs state.world⟩
  · refine (storedAfter digest).trans ?_
    rw [good.stored_iff]
    simp only [after, uploadBlobs, mem_append, or_and_right, exists_or, or_assoc]
  · -- an upload of before, or one of now
    change state.uploaded ++ (api.upload blobs state.world).2.1 = front ++ blob :: back at split
    obtain ⟨middle, same, rest⟩ | ⟨middle, same, rest⟩ := List.append_eq_append_iff.mp split
    · have member : blob ∈ (api.upload blobs state.world).2.1 := by rw [rest]; simp
      have here := ready blob (behaves.upload_subset blobs state.world member)
      refine ⟨here.digest, fun entry inside tree => ?_⟩
      obtain old | ⟨other, found, digest⟩ :=
        (good.stored_iff _).mp (here.subtrees entry inside tree)
      · exact .inl old
      · exact .inr ⟨other, by rw [same]; exact mem_append_left _ found, digest⟩
    · cases middle with
      | nil =>
        rw [nil_append] at rest
        have member : blob ∈ (api.upload blobs state.world).2.1 := by
          rw [← rest]
          exact mem_cons_self
        have here := ready blob (behaves.upload_subset blobs state.world member)
        rw [append_nil] at same
        subst same
        exact ⟨here.digest, fun entry inside tree =>
          (good.stored_iff _).mp (here.subtrees entry inside tree)⟩
      | cons head middle =>
        obtain ⟨rfl, rfl⟩ := cons.inj rest
        exact good.first front blob middle same
  · exact (storedAfter digest).mpr (.inl old)

variable [DecidableEq Hash]

/-- A blob is stored, or waits in a container. -/
def Pending (stored : ArtifactDigest Hash → Prop) (container : List (ArtifactBlob Hash))
    (digest : ArtifactDigest Hash) : Prop :=
  stored digest ∨ ∃ blob ∈ container, blob.digest = digest

omit [DecidableEq Hash] in
variable {container : List (ArtifactBlob Hash)}

theorem Pending.mono {few many : ArtifactDigest Hash → Prop} {digest : ArtifactDigest Hash}
    (pending : Pending few container digest) (more : ∀ digest, few digest → many digest) :
    Pending many container digest := pending.imp_left (more digest)

variable {state' : UploadState Hash World}

theorem continues_updateContainer (behaves : Behaves api stored)
    (good : Good treeId stored start state)
    (readyAll : ∀ other ∈ container, Ready treeId (stored state.world) other)
    (ready : Ready treeId (stored state.world) blob) {success : Bool}
    {container' : List (ArtifactBlob Hash)}
    (result : api.updateContainerAndUpload container blob state = (success, container', state')) :
    Continues treeId stored start state state' ∧ (success = true →
        (∀ other ∈ container', Ready treeId (stored state'.world) other) ∧
        (∀ digest, Pending (stored state.world) container digest →
          Pending (stored state'.world) container' digest) ∧
        Pending (stored state'.world) container' blob.digest) := by
  unfold updateContainerAndUpload at result
  split at result
  · -- a large blob is uploaded alone
    have readyOne : ∀ other ∈ [blob], Ready treeId (stored state.world) other :=
      fun other inside => mem_singleton.mp inside ▸ ready
    obtain ⟨continued, all⟩ := continues_uploadBlobs behaves good readyOne
    cases result
    refine ⟨continued, fun success => ⟨fun other inside => (readyAll other inside).mono
      continued.grows, fun digest pending => pending.mono continued.grows,
      .inl (all success blob mem_cons_self)⟩⟩
  · split at result
    · next known =>
      cases result
      obtain ⟨other, inside, same⟩ := List.any_eq_true.mp known
      exact ⟨good.continues, fun _ => ⟨readyAll, fun _ => id,
        .inr ⟨other, inside, by simpa using same⟩⟩⟩
    · simp only at result
      split at result
      · -- the container is full
        obtain ⟨continued, all⟩ := continues_uploadBlobs behaves good readyAll
        cases result
        refine ⟨continued, fun success => ?_⟩
        rw [if_pos success]
        refine ⟨fun other inside => (mem_singleton.mp inside ▸ ready).mono continued.grows,
          fun digest pending => ?_, .inr ⟨blob, mem_cons_self, rfl⟩⟩
        obtain old | ⟨other, inside, same⟩ := pending
        · exact .inl (continued.grows digest old)
        · exact .inl (same ▸ all success other inside)
      · cases result
        refine ⟨good.continues, fun _ => ⟨fun other inside => ?_, fun digest pending => ?_,
          .inr ⟨blob, mem_append_right _ mem_cons_self, rfl⟩⟩⟩
        · cases mem_append.mp inside with
          | inl old => exact readyAll other old
          | inr new => exact mem_singleton.mp new ▸ ready
        · exact pending.imp_right fun ⟨other, inside, same⟩ =>
            ⟨other, mem_append_left _ inside, same⟩

/-- The nodes of a blob tree: every subtree of a blob stands below it, or is there before. -/
def Complete (treeId : GitTree Hash → Hash) (start : ArtifactDigest Hash → Prop) :
    BlobNodes Hash → Prop
  | .nil => True
  | .node blob below rest =>
    blob.digest = ⟨treeId blob.content, true⟩ ∧
    (∀ entry ∈ blob.content, entry.type = .tree →
      (⟨entry.hash, true⟩ : ArtifactDigest Hash) ∈ below.digests ∨ start ⟨entry.hash, true⟩) ∧
    Complete treeId start below ∧ Complete treeId start rest

/-- What processing missing blobs does, from any state. -/
def Processes (treeId : GitTree Hash → Hash) (stored : World → ArtifactDigest Hash → Prop)
    (start : ArtifactDigest Hash → Prop) (digests : List (ArtifactDigest Hash))
    (process : List (ArtifactDigest Hash) → List (ArtifactBlob Hash) → UploadState Hash World →
      Bool × List (ArtifactBlob Hash) × UploadState Hash World) : Prop :=
  ∀ missing container state, Good treeId stored start state →
    (∀ other ∈ container, Ready treeId (stored state.world) other) →
    ∀ success container' state', process missing container state = (success, container', state') →
      Continues treeId stored start state state' ∧
      (success = true →
        (∀ other ∈ container', Ready treeId (stored state'.world) other) ∧
        (∀ digest, Pending (stored state.world) container digest →
          Pending (stored state'.world) container' digest) ∧
        ∀ digest ∈ digests, digest ∈ missing → Pending (stored state'.world) container' digest)

theorem continues_withMissing (behaves : Behaves api stored) {digests : List (ArtifactDigest Hash)}
    {process : List (ArtifactDigest Hash) → List (ArtifactBlob Hash) → UploadState Hash World →
      Bool × List (ArtifactBlob Hash) × UploadState Hash World}
    (processes : Processes treeId stored start digests process)
    (good : Good treeId stored start state) {success : Bool}
    (result : api.withMissing digests process state = (success, state')) :
    Continues treeId stored start state state' ∧
      (success = true → ∀ digest ∈ digests, stored state'.world digest) := by
  have asked := good.sameStored (behaves.missing_same digests.dedup state.world)
  unfold withMissing at result
  simp only at result
  generalize processed : process (api.getMissingDigests digests.dedup state.world).1 []
    { state with world := (api.getMissingDigests digests.dedup state.world).2 } = outcome at result
  obtain ⟨worked, container, middle⟩ := outcome
  obtain ⟨continued, facts⟩ := processes _ _ _ asked.good (by simp) worked container middle processed
  simp only at result
  cases worked with
  | false =>
    cases result
    exact ⟨asked.trans continued, fun never => absurd never false_ne_true⟩
  | true =>
    obtain ⟨ready, -, pending⟩ := facts rfl
    obtain ⟨final, all⟩ := continues_uploadBlobs behaves continued.good ready
    rw [if_pos rfl] at result
    rw [result] at final all
    refine ⟨(asked.trans continued).trans final, fun success digest inside => ?_⟩
    by_cases reported : digest ∈ (api.getMissingDigests digests.dedup state.world).1
    · obtain old | ⟨blob, waiting, same⟩ := pending digest inside reported
      · exact final.grows digest old
      · exact same ▸ all success blob waiting
    · exact (asked.trans (continued.trans final)).grows digest
        (behaves.missing _ _ digest (List.mem_dedup.mpr inside) reported)

variable {nodes : BlobNodes Hash}

theorem processes_processMissing (behaves : Behaves api stored)
    (complete : Complete treeId start nodes) :
    Processes treeId stored start nodes.digests (api.processMissing nodes) := by
  induction nodes with
  | nil =>
    intro missing container state good ready success container' state' result
    cases result
    exact ⟨good.continues, fun _ => ⟨ready, fun _ => id, fun _ absurd' => nomatch absurd'⟩⟩
  | node blob below rest down step =>
    intro missing container state good ready success container' state' result
    obtain ⟨digest, subtrees, completeBelow, completeRest⟩ := complete
    rw [processMissing] at result
    split at result
    · next reported =>
      have isTree : blob.digest.isTree = true := by rw [digest]
      rw [if_pos isTree] at result
      generalize lower : api.withMissing below.digests (api.processMissing below) state = outcome
        at result
      obtain ⟨worked, middle⟩ := outcome
      obtain ⟨continued, allBelow⟩ := continues_withMissing behaves (down completeBelow) good lower
      simp only at result
      cases worked with
      | false =>
        cases result
        exact ⟨continued, fun never => absurd never false_ne_true⟩
      | true =>
        have readyBlob : Ready treeId (stored middle.world) blob := by
          refine ⟨digest, fun entry inside tree => ?_⟩
          obtain found | old := subtrees entry inside tree
          · exact allBelow rfl _ found
          · exact (continued.good.stored_iff _).mpr (.inl old)
        have readyAll := fun other inside => (ready other inside).mono continued.grows
        rw [if_pos rfl] at result
        generalize updated : api.updateContainerAndUpload container blob middle = outcome at result
        obtain ⟨added, container₂, state₂⟩ := outcome
        obtain ⟨continued₂, facts⟩ :=
          continues_updateContainer behaves continued.good readyAll readyBlob updated
        simp only at result
        cases added with
        | false =>
          cases result
          exact ⟨continued.trans continued₂, fun never => absurd never false_ne_true⟩
        | true =>
          obtain ⟨ready₂, kept, here⟩ := facts rfl
          rw [if_pos rfl] at result
          obtain ⟨continued₃, facts₃⟩ := step completeRest _ _ _ continued₂.good ready₂ _ _ _ result
          refine ⟨(continued.trans continued₂).trans continued₃, fun success => ?_⟩
          obtain ⟨ready₃, kept₃, others⟩ := facts₃ success
          refine ⟨ready₃, fun other pending => kept₃ other (kept other
            (pending.mono continued.grows)), fun other inside wanted => ?_⟩
          by_cases same : other = blob.digest
          · exact same ▸ kept₃ _ here
          · cases mem_cons.mp inside with
            | inl equal => exact absurd equal same
            | inr further =>
              exact others other further (mem_filter.mpr ⟨wanted, by simpa using same⟩)
    · next unreported =>
      obtain ⟨continued, facts⟩ := step completeRest _ _ _ good ready _ _ _ result
      refine ⟨continued, fun success => ?_⟩
      obtain ⟨ready', kept, others⟩ := facts success
      refine ⟨ready', kept, fun other inside wanted => ?_⟩
      cases mem_cons.mp inside with
      | inl equal => exact absurd (equal ▸ wanted) unreported
      | inr further => exact others other further wanted

omit [DecidableEq Hash] in
theorem complete_of_represents {info : Artifact → Option (Tree.ObjectType × Hash)}
    {tree : DirectoryTree Artifact} {entries : List (GitEntry Hash)}
    (represented : Represents treeId info tree entries nodes)
    (known : ∀ leaf ∈ leaves tree, ∀ hash, info leaf.2 = some (.tree, hash) → start ⟨hash, true⟩) :
    Complete treeId start nodes ∧ ∀ entry ∈ entries, entry.type = .tree →
      (⟨entry.hash, true⟩ : ArtifactDigest Hash) ∈ nodes.digests ∨ start ⟨entry.hash, true⟩ := by
  induction tree generalizing entries nodes with
  | nil =>
    obtain ⟨rfl, rfl⟩ := represented
    exact ⟨trivial, fun _ absurd' => nomatch absurd'⟩
  | artifact name value rest step =>
    obtain ⟨type, hash, others, isInfo, rfl, behind⟩ := represented
    obtain ⟨complete, found⟩ := step behind fun leaf inside =>
      known leaf (mem_cons_of_mem _ inside)
    refine ⟨complete, fun entry inside isTree => ?_⟩
    cases mem_cons.mp inside with
    | inl same =>
      subst same
      cases isTree
      exact .inr (known _ mem_cons_self hash isInfo)
    | inr further => exact found entry further isTree
  | directory name sub rest down step =>
    obtain ⟨blob, below, more, inner, others, rfl, rfl, digest, listed, inside, behind⟩ := represented
    obtain ⟨complete, found⟩ := step behind fun leaf member =>
      known leaf (mem_append_right _ member)
    obtain ⟨completeSub, foundSub⟩ := down inside fun leaf member =>
      known (name :: leaf.1, leaf.2) (mem_append_left _ (mem_map.mpr ⟨leaf, member, rfl⟩))
    refine ⟨⟨digest, fun entry member isTree => foundSub entry (listed.once.mem_iff.mp member) isTree,
      completeSub, complete⟩, fun entry member isTree => ?_⟩
    cases mem_cons.mp member with
    | inl same =>
      subst same
      exact .inl (mem_cons.mpr (.inl digest.symm))
    | inr further => exact (found entry further isTree).imp_left (mem_cons_of_mem _)

/-- One tree is a subtree of another one. -/
def Subtree (treeId : GitTree Hash → Hash) (above below : Hash) : Prop :=
  ∃ content, treeId content = above ∧ ∃ entry ∈ content, entry.type = .tree ∧ entry.hash = below

omit [DecidableEq Hash] in
theorem Closed.below {held : ArtifactDigest Hash → Prop} (closed : Closed treeId held)
    {above below : Hash} (stored : held ⟨above, true⟩)
    (path : Relation.ReflTransGen (Subtree treeId) above below) : held ⟨below, true⟩ := by
  induction path with
  | refl => exact stored
  | tail _ last step =>
    obtain ⟨content, rfl, entry, inside, tree, rfl⟩ := last
    exact closed content step entry inside tree

/-- What an upload of a directory tree to a closed store does. -/
structure Uploads (api : ExecutionApi Hash World) (stored : World → ArtifactDigest Hash → Prop)
    (treeId : GitTree Hash → Hash) (info : Artifact → Option (Tree.ObjectType × Hash))
    (tree : DirectoryTree Artifact) (world : World) (answer : Option (ArtifactDigest Hash))
    (state : UploadState Hash World) : Prop where
  stored_iff : ∀ digest, stored state.world digest ↔ after (stored world) state.uploaded digest
  first : ContentFirst treeId (stored world) state.uploaded
  closed : ∀ front back, state.uploaded = front ++ back → Closed treeId (after (stored world) front)
  success : ∀ digest, answer = some digest → ∃ blobTree entries,
    BlobTree.fromDirectoryTree treeId info tree = some blobTree ∧
    Represents treeId info tree entries blobTree.nodes ∧ Lists blobTree.blob.content entries ∧
    digest = ⟨treeId blobTree.blob.content, true⟩ ∧
    ∀ hash, Relation.ReflTransGen (Subtree treeId) digest.hash hash → stored state.world ⟨hash, true⟩

/-- A directory tree is uploaded content first, if its artifacts that are trees are stored before.
-/
theorem uploads_commonUploadTreeNative {info : Artifact → Option (Tree.ObjectType × Hash)}
    {tree : DirectoryTree Artifact} {world : World} (noCollision : Function.Injective treeId)
    (behaves : Behaves api stored) (proper : Proper tree)
    (plain : ∀ leaf ∈ leaves tree, ∀ name ∈ leaf.1, 0x2f ∉ name)
    (closed : Closed treeId (stored world))
    (known : ∀ leaf ∈ leaves tree, ∀ hash, info leaf.2 = some (.tree, hash) →
      stored world ⟨hash, true⟩) :
    Uploads api stored treeId info tree world
      (api.commonUploadTreeNative treeId info tree ⟨world, []⟩).1
      (api.commonUploadTreeNative treeId info tree ⟨world, []⟩).2 := by
  have good : Good treeId stored (stored world) (⟨world, []⟩ : UploadState Hash World) :=
    ⟨fun digest => by simp [after], fun front blob back split => absurd split (by simp)⟩
  -- the first three parts hold of every state that is reached content first
  have finish : ∀ {answer : Option (ArtifactDigest Hash)} {state : UploadState Hash World},
      Good treeId stored (stored world) state →
      (∀ digest, answer = some digest → ∃ blobTree entries,
        BlobTree.fromDirectoryTree treeId info tree = some blobTree ∧
        Represents treeId info tree entries blobTree.nodes ∧ Lists blobTree.blob.content entries ∧
        digest = ⟨treeId blobTree.blob.content, true⟩ ∧ stored state.world digest) →
      Uploads api stored treeId info tree world answer state := by
    intro answer state reached answered
    have closes : ∀ front back, state.uploaded = front ++ back →
        Closed treeId (after (stored world) front) :=
      fun front back split => reached.first.closed noCollision closed split
    refine ⟨reached.stored_iff, reached.first, closes, fun digest given => ?_⟩
    obtain ⟨blobTree, entries, written, represented, listed, rfl, there⟩ := answered digest given
    refine ⟨blobTree, entries, written, represented, listed, rfl, fun hash path => ?_⟩
    have whole := closes state.uploaded [] (append_nil _).symm
    exact (reached.stored_iff _).mpr (whole.below ((reached.stored_iff _).mp there) path)
  unfold commonUploadTreeNative
  cases written : BlobTree.fromDirectoryTree treeId info tree with
  | none => exact finish good fun _ absurd' => nomatch absurd'
  | some blobTree =>
    obtain ⟨⟨collected, nodes⟩, found, rfl⟩ := map_eq_some_iff.mp written
    obtain ⟨sameNames, represented⟩ := represents_collect proper plain found
    have listed := lists_names proper plain sameNames
    obtain ⟨complete, subtrees⟩ := complete_of_represents represented known
    have asked := good.sameStored (behaves.available_same (BlobTree.treeBlob treeId collected).digest
      world)
    have answered : ∀ {state : UploadState Hash World},
        stored state.world (BlobTree.treeBlob treeId collected).digest →
        ∀ digest, some (BlobTree.treeBlob treeId collected).digest = some digest →
        ∃ blobTree entries, BlobTree.fromDirectoryTree treeId info tree = some blobTree ∧
          Represents treeId info tree entries blobTree.nodes ∧
          Lists blobTree.blob.content entries ∧
          digest = ⟨treeId blobTree.blob.content, true⟩ ∧ stored state.world digest := by
      intro state there digest same
      cases some.inj same
      exact ⟨⟨BlobTree.treeBlob treeId collected, nodes⟩, _, written, represented, listed, rfl, there⟩
    simp only
    split
    · next available =>
      refine finish asked.good (answered ?_)
      exact asked.grows _ (behaves.available _ world available)
    · unfold commonUploadBlobTree
      generalize lower : api.withMissing nodes.digests (api.processMissing nodes) _ = outcome
      obtain ⟨worked, middle⟩ := outcome
      obtain ⟨continued, allBelow⟩ := continues_withMissing behaves
        (processes_processMissing behaves complete) asked.good lower
      cases worked with
      | false => exact finish continued.good fun _ absurd' => nomatch absurd'
      | true =>
        have ready : ∀ blob ∈ [BlobTree.treeBlob treeId collected],
            Ready treeId (stored middle.world) blob := by
          intro blob inside
          rw [mem_singleton.mp inside]
          refine ⟨rfl, fun entry member isTree => ?_⟩
          obtain below | old := subtrees entry (listed.once.mem_iff.mp member) isTree
          · exact allBelow rfl _ below
          · exact (continued.good.stored_iff _).mpr (.inl old)
        obtain ⟨final, all⟩ := continues_uploadBlobs behaves continued.good ready
        refine finish final.good fun digest given => ?_
        simp only [if_true] at given ⊢
        split at given
        · next success => exact answered (all success _ mem_cons_self) digest given
        · cases given

/-- A store that takes everything. -/
def takesAll : ExecutionApi TreeOverlay.ObjectId (List (ArtifactDigest TreeOverlay.ObjectId)) where
  isAvailable digest world := (decide (digest ∈ world), world)
  getMissingDigests digests world := (digests.filter (· ∉ world), world)
  upload blobs world := (true, blobs, world ++ blobs.map ArtifactBlob.digest)

theorem takesAll_behaves : Behaves takesAll fun world digest => digest ∈ world where
  available _ _ found := of_decide_eq_true found
  available_same _ _ := rfl
  missing digests world digest asked unreported := by
    by_contra absent
    exact unreported (mem_filter.mpr ⟨asked, by simpa using absent⟩)
  missing_same _ _ := rfl
  upload_subset _ _ := List.Subset.refl _
  upload_stored blobs world digest := by simp [takesAll]
  upload_success blobs world _ blob inside := mem_append_right _ (mem_map.mpr ⟨blob, inside, rfl⟩)

/-- An artifact that is a tree, as far as it is known. -/
def treeArtifact (_ : Unit) : Option (Tree.ObjectType × TreeOverlay.ObjectId) :=
  some (.tree, TreeOverlay.oneFile)

theorem treeArtifact_unclosed :
    Closed TreeOverlay.plainCas.treeId
        (fun digest => digest ∈ ([] : List (ArtifactDigest TreeOverlay.ObjectId))) ∧
      (takesAll.commonUploadTreeNative TreeOverlay.plainCas.treeId treeArtifact
        (.artifact (lit "t") () .nil) ⟨[], []⟩).1.isSome = true ∧
      ¬ Closed TreeOverlay.plainCas.treeId fun digest => digest ∈
        (takesAll.commonUploadTreeNative TreeOverlay.plainCas.treeId treeArtifact
          (.artifact (lit "t") () .nil) ⟨[], []⟩).2.world := by
  refine ⟨fun _ never => absurd never not_mem_nil, by decide, fun closed => ?_⟩
  have here := closed [⟨lit "t", .tree, TreeOverlay.oneFile⟩] (by decide) _
    mem_cons_self rfl
  revert here
  decide

theorem treeArtifact_uploads :
    Uploads takesAll (fun world digest => digest ∈ world) TreeOverlay.plainCas.treeId treeArtifact
      (.artifact (lit "t") () .nil) [⟨TreeOverlay.oneFile, true⟩]
      (takesAll.commonUploadTreeNative TreeOverlay.plainCas.treeId treeArtifact
        (.artifact (lit "t") () .nil) ⟨[⟨TreeOverlay.oneFile, true⟩], []⟩).1
      (takesAll.commonUploadTreeNative TreeOverlay.plainCas.treeId treeArtifact
        (.artifact (lit "t") () .nil) ⟨[⟨TreeOverlay.oneFile, true⟩], []⟩).2 := by
  have noCollision : Function.Injective TreeOverlay.plainCas.treeId := fun left right same => by
    have found := (TreeOverlay.plainCas.addressed _ left).mpr same
    rw [(TreeOverlay.plainCas.addressed _ right).mpr rfl] at found
    exact (some.inj found).symm
  refine uploads_commonUploadTreeNative noCollision takesAll_behaves
    ⟨not_mem_nil, trivial⟩ (by decide) (fun content stored entry inside isTree => ?_)
    (fun leaf _ hash known => ?_)
  · -- the stored tree has one file
    have same : content = [⟨lit "a", .file, .blob 0⟩] :=
      noCollision (ArtifactDigest.mk.inj (mem_singleton.mp stored)).1
    rw [same] at inside
    cases mem_singleton.mp inside
    cases isTree
  · cases some.inj known
    exact mem_cons_self

end Jst.Verif.TreeUploads
