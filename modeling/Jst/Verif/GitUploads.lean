import Jst.Execution.GitUpload
import Jst.Verif.ValidatedTrees
/-!
# Git trees are uploaded content first

What the store does not miss has all that is below it, as the store is closed. Of what it misses,
subtrees are uploaded with all below them first. So all below a tree is stored before it, whichever
entry stands for those with the same digest.
-/
namespace Jst.Verif.GitUploads

open Jst.Execution.GitUpload Jst.Execution.GitUpload.Repository Jst.FileSystem.GitTreeUtils
  Jst.FileSystem.GitTreeUtils.GitCas Jst.Uploads Jst.Verif.ValidatedTrees

variable {Hash World : Type} {format : GitFormat Hash} {repo : Repository format}

variable {state' : Sent ArtifactBlob World} {tree : GitTree Hash}

/-- A tree needs all its entries, and nothing else needs anything. -/
def Needs (format : GitFormat Hash) (blob : ArtifactBlob) (other : Tree.ArtifactDigest Hash) : Prop :=
  blob.isTree = true ∧ ∃ entries, format.parse blob.content = some entries ∧
    ∃ entry ∈ entries, other = ⟨entry.id, entry.mode = .tree⟩

/-- A tree that is read of a repository. -/
def IsRead (repo : Repository format) (tree : GitTree Hash) : Prop :=
  repo.read tree.rawId false true = some tree

theorem needs_eq (noCollision : Function.Injective format.hashTreeData)
    {blob other : ArtifactBlob} (same : blob.digest format = other.digest format) :
    Needs format blob = Needs format other := by
  obtain ⟨sameHash, sameKind⟩ := Tree.ArtifactDigest.mk.inj same
  funext below
  unfold Needs
  cases isTree : other.isTree with
  | false => rw [sameKind, isTree]; simp
  | true =>
    rw [sameKind.trans isTree, isTree, if_pos rfl, if_pos rfl] at sameHash
    rw [sameKind, isTree, noCollision sameHash]

/-! ## Reading -/

theorem IsRead.entries (isRead : IsRead repo tree) :
    ∃ content, repo.object tree.rawId = some (.tree content) ∧
      (∀ object ∈ content, object.mode ≠ .other) ∧
      tree.entries = (typed content).map fun entry => (entry.name, ⟨entry.id, entry.type, none⟩) := by
  unfold IsRead GitCas.read at isRead
  rw [if_pos rfl] at isRead
  obtain ⟨entries, direct, same⟩ := map_eq_some_iff.mp isRead
  obtain ⟨content, found, known, rfl⟩ := readDirectTree_iff.mp direct
  have distinct := repo.names _ content found
  rw [← names_typed known] at distinct
  refine ⟨content, found, known, ?_⟩
  rw [← fromEntries_entries tree.rawId false distinct, same]

theorem isRead_entryTree {entry : GitTreeEntry Hash} (fresh : entry.cached = none)
    (isTree : entry.type = .tree) (read : repo.entryTree entry false = some tree) :
    IsRead repo tree ∧ tree.rawId = entry.rawId := by
  rw [entryTree_eq isTree (by rw [fresh]; exact nofun)] at read
  obtain ⟨entries, checked, rfl⟩ := map_eq_some_iff.mp read
  refine ⟨?_, rfl⟩
  unfold IsRead GitCas.read
  rw [if_pos rfl]
  exact map_eq_some_iff.mpr ⟨entries, (readTree_iff.mp checked).1, rfl⟩

/-- What is known of an entry of a tree that is read. -/
structure Listed (repo : Repository format) (above : Hash) (entry : GitTreeEntry Hash) : Prop where
  fresh : entry.cached = none
  digest : ∀ content, repo.readData entry.rawId = some content →
    (ArtifactBlob.fromMemory entry.type content).digest format = entryDigest entry
  less : repo.rank entry.rawId < repo.rank above

theorem IsRead.listed (isRead : IsRead repo tree) :
    ∀ entry ∈ tree.entries, Listed repo tree.rawId entry.2 := by
  obtain ⟨content, found, -, listed⟩ := isRead.entries
  intro entry inside
  rw [listed] at inside
  obtain ⟨typedEntry, member, rfl⟩ := mem_map.mp inside
  obtain ⟨object, inside, isType, -, isId⟩ := mem_typed.mp member
  have fits := repo.modes _ content found object inside
  rw [isId] at fits
  refine ⟨rfl, fun data read => ?_, isId ▸ repo.ranked _ content found object inside⟩
  have there : (repo.object typedEntry.id).isSome = true := by
    rw [← repo.readData_isSome, read]
    rfl
  obtain ⟨target, isTarget⟩ := isSome_iff_exists.mp there
  have fit := fits target isTarget
  by_cases isTree : typedEntry.type = .tree
  · rw [isTree] at isType
    rw [mode_of_type.1.mp isType] at fit
    obtain ⟨entries, rfl⟩ := fit
    obtain ⟨data', read', -, isHash⟩ := repo.tree_data _ entries isTarget
    cases read.symm.trans read'
    simp [ArtifactBlob.digest, ArtifactBlob.fromMemory, entryDigest, isTree, isHash]
  · have isBlob : ∃ data, target = .blob data := by
      cases mode : object.mode with
      | tree =>
        rw [mode] at isType
        exact absurd (some.inj isType).symm isTree
      | other =>
        rw [mode] at isType
        cases isType
      | _ => rwa [mode] at fit
    obtain ⟨data', rfl⟩ := isBlob
    obtain ⟨read', isHash⟩ := repo.blob_data _ data' isTarget
    cases read.symm.trans read'
    simp [ArtifactBlob.digest, ArtifactBlob.fromMemory, entryDigest, isTree, isHash]

theorem IsRead.needs_iff (isRead : IsRead repo tree) {content : Str}
    (read : repo.readData tree.rawId = some content) {other : Tree.ArtifactDigest Hash} :
    Needs format (.fromMemory .tree content) other ↔
      ∃ entry ∈ tree.entries, entryDigest entry.2 = other := by
  obtain ⟨objects, found, known, listed⟩ := isRead.entries
  obtain ⟨data, read', parsed, -⟩ := repo.tree_data _ objects found
  cases read.symm.trans read'
  have kind : ∀ {mode : FileMode} {type : Tree.ObjectType}, gitFileModeToObjectType mode = some type →
      decide (mode = .tree) = decide (type = .tree) := by
    intro mode type isType
    refine decide_eq_decide.mpr ?_
    rw [← mode_of_type.1, isType, some.injEq]
  rw [listed]
  constructor
  · rintro ⟨-, entries, parsed', object, inside, rfl⟩
    cases parsed.symm.trans parsed'
    obtain ⟨type, isType⟩ : ∃ type, gitFileModeToObjectType object.mode = some type := by
      cases mode : object.mode with
      | other => exact absurd mode (known object inside)
      | _ => exact ⟨_, rfl⟩
    have member : (⟨object.name, object.id, type⟩ : TreeEntry Hash) ∈ typed objects :=
      mem_typed.mpr ⟨object, inside, isType, rfl, rfl⟩
    refine ⟨_, mem_map.mpr ⟨_, member, rfl⟩, ?_⟩
    rw [entryDigest, kind isType]
  · rintro ⟨entry, inside, rfl⟩
    obtain ⟨typedEntry, member, rfl⟩ := mem_map.mp inside
    obtain ⟨object, inside, isType, -, isId⟩ := mem_typed.mp member
    refine ⟨rfl, objects, parsed, object, inside, ?_⟩
    rw [entryDigest, kind isType, isId]

variable [DecidableEq Hash]

/-! ## The map of entries -/

/-- A map has the entries of a tree under their digests, one for every digest. -/
structure Maps (entries : List (Str × GitTreeEntry Hash)) (backMap : EntryMap Hash) : Prop where
  sound : ∀ pair ∈ backMap, pair.1 = entryDigest pair.2 ∧ ∃ name, (name, pair.2) ∈ entries
  complete : ∀ entry ∈ entries, ∃ pair ∈ backMap, pair.1 = entryDigest entry.2

omit [DecidableEq Hash] in
variable {front : List (Str × GitTreeEntry Hash)}

variable {backMap : EntryMap Hash}

theorem Maps.skip (maps : Maps front backMap) {entry : Str × GitTreeEntry Hash}
    (known : ∃ pair ∈ backMap, pair.1 = entryDigest entry.2) : Maps (front ++ [entry]) backMap where
  sound pair inside := by
    obtain ⟨isKey, name, listed⟩ := maps.sound pair inside
    exact ⟨isKey, name, mem_append_left _ listed⟩
  complete other member := by
    cases mem_append.mp member with
    | inl old => exact maps.complete other old
    | inr new => exact mem_singleton.mp new ▸ known

omit [DecidableEq Hash] in
theorem Maps.put (maps : Maps front backMap) (entry : Str × GitTreeEntry Hash) :
    Maps (front ++ [entry]) (backMap ++ [(entryDigest entry.2, entry.2)]) where
  sound pair inside := by
    cases mem_append.mp inside with
    | inl old =>
      obtain ⟨isKey, name, listed⟩ := maps.sound pair old
      exact ⟨isKey, name, mem_append_left _ listed⟩
    | inr new =>
      cases mem_singleton.mp new
      exact ⟨rfl, entry.1, mem_append_right _ mem_cons_self⟩
  complete other member := by
    cases mem_append.mp member with
    | inl old =>
      obtain ⟨pair, inside, same⟩ := maps.complete other old
      exact ⟨pair, mem_append_left _ inside, same⟩
    | inr new =>
      cases mem_singleton.mp new
      exact ⟨_, mem_append_right _ mem_cons_self, rfl⟩

theorem maps_makeBackMap {entries : List (Str × GitTreeEntry Hash)} :
    ∀ {front : List (Str × GitTreeEntry Hash)} {backMap result : EntryMap Hash}, Maps front backMap →
      repo.makeBackMap backMap entries = some result → Maps (front ++ entries) result := by
  induction entries with
  | nil =>
    intro front backMap result maps made
    cases made
    rwa [append_nil]
  | cons head rest ih =>
    obtain ⟨name, entry⟩ := head
    intro front backMap result maps made
    rw [makeBackMap] at made
    have split : front ++ (name, entry) :: rest = (front ++ [(name, entry)]) ++ rest := by simp
    rw [split]
    split at made
    · cases made
    · split at made
      · next known =>
        obtain ⟨pair, inside, same⟩ := List.any_eq_true.mp known
        exact ih (maps.skip ⟨pair, inside, of_decide_eq_true same⟩) made
      · exact ih (maps.put (name, entry)) made

/-! ## The loops -/

section Loops

variable {stored : World → Tree.ArtifactDigest Hash → Prop} {start : Tree.ArtifactDigest Hash → Prop}
  {api : Endpoint ArtifactBlob (Tree.ArtifactDigest Hash) World} {orders : Orders Hash World}
  {state : Sent ArtifactBlob World}

variable {entries : EntryMap Hash}

/-- What an entry needs is stored, if its data can be read. -/
def EntryReady (repo : Repository format) (held : Tree.ArtifactDigest Hash → Prop)
    (entry : GitTreeEntry Hash) : Prop :=
  ∀ content, repo.readData entry.rawId = some content →
    Ready (Needs format) held (.fromMemory entry.type content)

/-- What uploading the trees of entries has to do: all below a tree is stored. -/
def UploadsTrees (repo : Repository format) (stored : World → Tree.ArtifactDigest Hash → Prop)
    (start : Tree.ArtifactDigest Hash → Prop)
    (upload : GitTree Hash → Sent ArtifactBlob World → Bool × Sent ArtifactBlob World) : Prop :=
  ∀ tree state, IsRead repo tree → Good (ArtifactBlob.digest format) (Needs format) stored start state →
    ∀ success state', upload tree state = (success, state') →
      Continues (ArtifactBlob.digest format) (Needs format) stored start state state' ∧
      (success = true → ∀ entry ∈ tree.entries, stored state'.world (entryDigest entry.2))

section
omit [DecidableEq Hash]

theorem entryReady_of_not_tree {entry : GitTreeEntry Hash} (noTree : entry.type ≠ .tree)
    (held : Tree.ArtifactDigest Hash → Prop) : EntryReady repo held entry := by
  intro content _ other needed
  have isTree : decide (entry.type = .tree) = true := needed.1
  exact absurd (of_decide_eq_true isTree) noTree

variable {upload : GitTree Hash → Sent ArtifactBlob World → Bool × Sent ArtifactBlob World}

end

variable {above : Hash} {success : Bool}

theorem continues_processTrees (uploads : UploadsTrees repo stored start upload)
    (listed : ∀ pair ∈ entries, Listed repo above pair.2)
    (good : Good (ArtifactBlob.digest format) (Needs format) stored start state)
    (result : repo.processTrees upload entries state = (success, state')) :
    Continues (ArtifactBlob.digest format) (Needs format) stored start state state' ∧
      (success = true → ∀ pair ∈ entries, EntryReady repo (stored state'.world) pair.2) := by
  induction entries generalizing state with
  | nil =>
    cases result
    exact ⟨good.continues, fun _ _ never => absurd never not_mem_nil⟩
  | cons head rest ih =>
    obtain ⟨key, entry⟩ := head
    have listedRest := (forall_mem_cons.mp listed).2
    rw [processTrees] at result
    by_cases isTree : entry.type = .tree
    · rw [if_pos isTree] at result
      cases read : repo.entryTree entry false with
      | none =>
        simp only [read] at result
        cases result
        exact ⟨good.continues, nofun⟩
      | some tree =>
        simp only [read] at result
        obtain ⟨isRead, sameId⟩ := isRead_entryTree (listed _ mem_cons_self).fresh isTree read
        generalize uploaded : upload tree state = outcome at result
        obtain ⟨worked, middle⟩ := outcome
        obtain ⟨continued, below⟩ := uploads tree state isRead good worked middle uploaded
        cases worked with
        | false =>
          cases result
          exact ⟨continued, nofun⟩
        | true =>
          obtain ⟨continued', ready⟩ := ih listedRest continued.good result
          refine ⟨continued.trans continued', fun success => ?_⟩
          refine forall_mem_cons.mpr ⟨fun content data other needed => ?_, ready success⟩
          have data' : repo.readData tree.rawId = some content := sameId ▸ data
          rw [isTree] at needed
          obtain ⟨inner, inside, rfl⟩ := (isRead.needs_iff data').mp needed
          exact continued'.grows _ (below rfl inner inside)
    · rw [if_neg isTree] at result
      obtain ⟨continued, ready⟩ := ih listedRest good result
      exact ⟨continued, fun success => forall_mem_cons.mpr
        ⟨entryReady_of_not_tree isTree _, ready success⟩⟩

theorem continues_uploadEntries (behaves : Behaves api (ArtifactBlob.digest format) stored)
    (listed : ∀ pair ∈ entries, Listed repo above pair.2)
    (ready : ∀ pair ∈ entries, EntryReady repo (stored state.world) pair.2)
    (good : Good (ArtifactBlob.digest format) (Needs format) stored start state)
    {container : List ArtifactBlob}
    (readyAll : ∀ blob ∈ container, Ready (Needs format) (stored state.world) blob)
    {container' : List ArtifactBlob}
    (result : repo.uploadEntries api entries container state = (success, container', state')) :
    Continues (ArtifactBlob.digest format) (Needs format) stored start state state' ∧
      (success = true → (∀ blob ∈ container', Ready (Needs format) (stored state'.world) blob) ∧
        (∀ other, Pending (ArtifactBlob.digest format) (stored state.world) container other →
          Pending (ArtifactBlob.digest format) (stored state'.world) container' other) ∧
        ∀ pair ∈ entries, Pending (ArtifactBlob.digest format) (stored state'.world) container'
          (entryDigest pair.2)) := by
  induction entries generalizing state container with
  | nil =>
    cases result
    exact ⟨good.continues, fun _ => ⟨readyAll, fun _ => id,
      fun _ never => absurd never not_mem_nil⟩⟩
  | cons head rest ih =>
    obtain ⟨key, entry⟩ := head
    have listedRest := (forall_mem_cons.mp listed).2
    have here := listed _ mem_cons_self
    rw [uploadEntries] at result
    cases read : repo.readData entry.rawId with
    | none =>
      simp only [read] at result
      cases result
      exact ⟨good.continues, nofun⟩
    | some content =>
      simp only [read] at result
      generalize collected : api.collect Remote.MessageLimits.maxGrpcLength ArtifactBlob.contentSize
        (ArtifactBlob.same format) container (.fromMemory entry.type content) state = outcome at result
      obtain ⟨worked, container₁, middle⟩ := outcome
      have sameKey : ∀ blob other, ArtifactBlob.same format blob other = true →
          other.digest format = blob.digest format := by
        intro blob other same
        rw [ArtifactBlob.same, and_eq_true] at same
        exact (of_decide_eq_true same.1).symm
      obtain ⟨continued, facts⟩ := continues_collect behaves good sameKey readyAll
        (ready _ mem_cons_self content read) collected
      cases worked with
      | false =>
        cases result
        exact ⟨continued, nofun⟩
      | true =>
        obtain ⟨readyAll', pending, isPending⟩ := facts rfl
        obtain ⟨continued', facts'⟩ := ih listedRest (fun pair inside content read =>
          (ready pair (mem_cons_of_mem _ inside) content read).mono continued.grows)
          continued.good readyAll' result
        refine ⟨continued.trans continued', fun success => ?_⟩
        obtain ⟨readyEnd, pendingEnd, all⟩ := facts' success
        refine ⟨readyEnd, fun other before => pendingEnd other (pending other before), ?_⟩
        refine forall_mem_cons.mpr ⟨?_, all⟩
        exact here.digest content read ▸ pendingEnd _ isPending

theorem continues_uploadMissing (behaves : Behaves api (ArtifactBlob.digest format) stored)
    (uploads : UploadsTrees repo stored start upload)
    (listed : ∀ pair ∈ entries, Listed repo above pair.2)
    (good : Good (ArtifactBlob.digest format) (Needs format) stored start state)
    (result : repo.uploadMissing api upload entries state = (success, state')) :
    Continues (ArtifactBlob.digest format) (Needs format) stored start state state' ∧
      (success = true → ∀ pair ∈ entries, stored state'.world (entryDigest pair.2)) := by
  unfold uploadMissing at result
  generalize processed : repo.processTrees upload entries state = outcome at result
  obtain ⟨worked, middle⟩ := outcome
  obtain ⟨continued, ready⟩ := continues_processTrees uploads listed good processed
  cases worked with
  | false =>
    cases result
    exact ⟨continued, nofun⟩
  | true =>
    dsimp only at result
    rw [if_pos rfl] at result
    generalize collected : repo.uploadEntries api entries [] middle = outcome at result
    obtain ⟨worked, container, last⟩ := outcome
    obtain ⟨continued', facts⟩ := continues_uploadEntries behaves listed (ready rfl)
      continued.good (fun _ never => absurd never not_mem_nil) collected
    have soFar := continued.trans continued'
    cases worked with
    | false =>
      cases result
      exact ⟨soFar, nofun⟩
    | true =>
      dsimp only at result
      rw [if_pos rfl] at result
      obtain ⟨readyAll, -, pending⟩ := facts rfl
      obtain ⟨final, all⟩ := continues_send behaves soFar.good readyAll
      rw [result] at final all
      refine ⟨soFar.trans final, fun success pair inside => ?_⟩
      obtain old | ⟨blob, inContainer, same⟩ := pending pair inside
      · exact final.grows _ old
      · exact same ▸ all success blob inContainer

theorem uploadsTrees_verifyOrUploadTree
    (behaves : Behaves api (ArtifactBlob.digest format) stored) (fuel : Nat) :
    UploadsTrees repo stored start (repo.verifyOrUploadTree api orders fuel) := by
  induction fuel with
  | zero =>
    intro tree state _ good success state' result
    cases result
    exact ⟨good.continues, nofun⟩
  | succ fuel ih =>
    intro tree state isRead good success state' result
    rw [verifyOrUploadTree] at result
    have listing := orders.entries_perm state.world tree.entries
    cases made : repo.makeBackMap [] (orders.entries state.world tree.entries) with
    | none =>
      rw [made] at result
      cases result
      exact ⟨good.continues, nofun⟩
    | some backMap =>
      rw [made] at result
      dsimp only at result
      have maps := maps_makeBackMap ⟨fun _ never => absurd never not_mem_nil,
        fun _ never => absurd never not_mem_nil⟩ made
      rw [nil_append] at maps
      have asked := good.sameStored (behaves.missing_same (backMap.map fst) state.world)
      have isStored := behaves.missing (backMap.map fst) state.world
      generalize api.missing (backMap.map fst) state.world = answer at result asked isStored
      have member : ∀ pair,
          pair ∈ orders.references answer.2 (iterateReferences backMap answer.1) ↔
            pair ∈ backMap ∧ pair.1 ∈ answer.1 := by
        intro pair
        rw [(orders.references_perm _ _).mem_iff, iterateReferences, mem_filter, decide_eq_true_iff]
      obtain ⟨continued, all⟩ := continues_uploadMissing behaves ih (fun pair inside => by
        obtain ⟨-, name, found⟩ := maps.sound pair ((member pair).mp inside).1
        exact isRead.listed _ (listing.mem_iff.mp found)) asked.good result
      refine ⟨asked.trans continued, fun success entry inside => ?_⟩
      obtain ⟨pair, known, isKey⟩ := maps.complete entry (listing.mem_iff.mpr inside)
      rw [← isKey]
      by_cases reported : pair.1 ∈ answer.1
      · exact (maps.sound pair known).1 ▸ all success pair ((member pair).mpr ⟨known, reported⟩)
      · exact (asked.trans continued).grows _
          (isStored pair.1 (mem_map.mpr ⟨pair, known, rfl⟩) reported)

end Loops

/-! ## The result -/

/-- What uploads keep after each single one, and what they make available if they succeed. -/
structure KeepsClosed (format : GitFormat Hash)
    (stored : World → Tree.ArtifactDigest Hash → Prop) (start : Tree.ArtifactDigest Hash → Prop)
    (wanted : Tree.ArtifactDigest Hash → Prop) (outcome : Bool × Sent ArtifactBlob World) :
    Prop where
  stored_iff : ∀ other, stored outcome.2.world other ↔
    after (ArtifactBlob.digest format) start outcome.2.uploaded other
  closed : ∀ front back, outcome.2.uploaded = front ++ back →
    Closed (ArtifactBlob.digest format) (Needs format) (after (ArtifactBlob.digest format) start front)
  available : outcome.1 = true → ∀ above, wanted above → ∀ below,
    Relation.ReflTransGen (Contains (ArtifactBlob.digest format) (Needs format)) above below →
    stored outcome.2.world below

omit [DecidableEq Hash] in
theorem keepsClosed {stored : World → Tree.ArtifactDigest Hash → Prop} {world : World}
    (noCollision : Function.Injective format.hashTreeData)
    (closed : Closed (ArtifactBlob.digest format) (Needs format) (stored world))
    {wanted : Tree.ArtifactDigest Hash → Prop} {outcome : Bool × Sent ArtifactBlob World}
    (good : Good (ArtifactBlob.digest format) (Needs format) stored (stored world) outcome.2)
    (all : outcome.1 = true → ∀ above, wanted above → stored outcome.2.world above) :
    KeepsClosed format stored (stored world) wanted outcome := by
  have kept : ∀ front back, outcome.2.uploaded = front ++ back → Closed (ArtifactBlob.digest format)
      (Needs format) (after (ArtifactBlob.digest format) (stored world) front) :=
    fun front back split => good.first.closed (fun _ _ => needs_eq noCollision) closed split
  refine ⟨good.stored_iff, kept, fun success above isWanted below path => ?_⟩
  have there := (good.stored_iff above).mp (all success above isWanted)
  exact (good.stored_iff below).mpr ((kept _ [] (append_nil _).symm).below there path)

/-- What is returned by `ReadGitTree` for an object, and the kind of its digest. -/
structure Found (tree : Option (Repository format × GitTree Hash)) (info : Tree.ObjectInfo Hash) :
    Prop where
  tree : ∀ repo read, tree = some (repo, read) → read.rawId = info.digest.hash ∧ IsRead repo read
  kind : info.digest.isTree = decide (info.type = .tree)

/-- Uploading trees, and objects of git repositories, keeps a closed store closed after every single
upload, and on success makes them available with all that is below them. -/
theorem uploads_keep_closed {api : Endpoint ArtifactBlob (Tree.ArtifactDigest Hash) World}
    {orders : Orders Hash World} {stored : World → Tree.ArtifactDigest Hash → Prop} {world : World}
    (behaves : Behaves api (ArtifactBlob.digest format) stored)
    (noCollision : Function.Injective format.hashTreeData)
    (closed : Closed (ArtifactBlob.digest format) (Needs format) (stored world)) :
    (∀ (repo : Repository format) tree, IsRead repo tree →
      KeepsClosed format stored (stored world)
        (fun other => ∃ entry ∈ tree.entries, other = entryDigest entry.2)
        (repo.verifyOrUploadTree api orders (repo.rank tree.rawId + 1) tree ⟨world, []⟩)) ∧
    ∀ (tree : Option (Repository format × GitTree Hash)) blob info, Found tree info →
      KeepsClosed format stored (stored world)
        (fun other => info.digest.isTree = true ∧ other = info.digest)
        (verifyOrUploadGitArtifact api orders tree blob info ⟨world, []⟩) := by
  have begins : Good (ArtifactBlob.digest format) (Needs format) stored (stored world)
      (⟨world, []⟩ : Sent ArtifactBlob World) := good_start world
  constructor
  · intro repo tree isRead
    obtain ⟨continued, all⟩ := uploadsTrees_verifyOrUploadTree behaves
      (repo.rank tree.rawId + 1) tree ⟨world, []⟩ isRead begins _ _ rfl
    refine keepsClosed noCollision closed continued.good ?_
    rintro success _ ⟨entry, inside, rfl⟩
    exact all success entry inside
  · intro tree blob info found
    unfold verifyOrUploadGitArtifact
    have kind := found.kind
    cases isTree : info.digest.isTree with
    | false =>
      rw [isTree] at kind
      rw [if_neg false_ne_true]
      have good : Good (ArtifactBlob.digest format) (Needs format) stored (stored world)
          (uploadContent api info.type ⟨world, []⟩ blob).2 := by
        cases blob with
        | none => exact begins
        | some content =>
          refine (continues_send behaves begins fun blob inside => ?_).1.good
          rw [mem_singleton.mp inside]
          intro other needed
          have kind' : decide (info.type = .tree) = true := needed.1
          rw [← kind] at kind'
          exact absurd kind' false_ne_true
      exact keepsClosed noCollision closed good fun _ _ never => absurd never.1 false_ne_true
    | true =>
      rw [isTree] at kind
      have type := of_decide_eq_true kind.symm
      rw [if_pos rfl]
      cases tree with
      | none => exact keepsClosed noCollision closed begins nofun
      | some pair =>
        obtain ⟨repo, tree⟩ := pair
        obtain ⟨sameId, isRead⟩ := found.tree repo tree rfl
        dsimp only
        generalize uploaded : repo.verifyOrUploadTree api orders (repo.rank tree.rawId + 1) tree
          ⟨world, []⟩ = outcome
        obtain ⟨worked, middle⟩ := outcome
        obtain ⟨continued, all⟩ := uploadsTrees_verifyOrUploadTree behaves _ tree _ isRead begins
          worked middle uploaded
        cases worked with
        | false => exact keepsClosed noCollision closed continued.good nofun
        | true =>
          dsimp only
          rw [if_pos rfl]
          cases read : repo.readData tree.rawId with
          | none => exact keepsClosed noCollision closed continued.good nofun
          | some content =>
            rw [uploadContent, type]
            have ready : ∀ blob ∈ [ArtifactBlob.fromMemory .tree content],
                Ready (Needs format) (stored middle.world) blob := by
              intro blob inside other needed
              rw [mem_singleton.mp inside] at needed
              obtain ⟨entry, member, rfl⟩ := (isRead.needs_iff read).mp needed
              exact all rfl entry member
            obtain ⟨continued', stored'⟩ := continues_send behaves continued.good ready
            refine keepsClosed noCollision closed continued'.good ?_
            rintro success _ ⟨-, rfl⟩
            have here := stored' success _ mem_cons_self
            obtain ⟨entries, object, -⟩ := isRead.entries
            obtain ⟨data, read', -, isHash⟩ := repo.tree_data _ entries object
            cases read.symm.trans read'
            have same : (ArtifactBlob.fromMemory .tree content).digest format = info.digest := by
              rw [ArtifactBlob.digest, ArtifactBlob.fromMemory]
              simp only [decide_true, if_true]
              rw [isHash, sameId, ← isTree]
            rwa [same] at here

/-! ## An example -/

/-- An id that shows the data. -/
inductive ObjectId where
  | blob (data : Str)
  | tree (data : Str)
deriving DecidableEq

/-- A tree with one file. -/
def oneFile : List (TreeObjectEntry ObjectId) := [⟨lit "f", .blob, .blob (lit "x")⟩]

/-- A tree in which a file, an executable and a symbolic link have the same data, and which has the
same subtree twice. -/
def shared : List (TreeObjectEntry ObjectId) :=
  [⟨lit "a", .blob, .blob (lit "x")⟩, ⟨lit "b", .blobExecutable, .blob (lit "x")⟩,
    ⟨lit "c", .link, .blob (lit "x")⟩, ⟨lit "d", .tree, .tree (lit "1")⟩,
    ⟨lit "e", .tree, .tree (lit "1")⟩]

/-- A format with two trees. -/
def twoTrees : GitFormat ObjectId where
  hashBlobData := .blob
  hashTreeData := .tree
  parse data := if data = lit "1" then some oneFile else if data = lit "2" then some shared else none

theorem twoTrees_parse {data : Str} {entries : List (TreeObjectEntry ObjectId)}
    (found : (twoTrees.parse data).map .tree = some (GitObject.tree entries)) :
    data = lit "1" ∧ entries = oneFile ∨ data = lit "2" ∧ entries = shared := by
  obtain ⟨_, parsed, same⟩ := map_eq_some_iff.mp found
  cases same
  unfold twoTrees at parsed
  dsimp only at parsed
  split at parsed
  · next same => exact .inl ⟨same, (some.inj parsed).symm⟩
  · split at parsed
    · next same => exact .inr ⟨same, (some.inj parsed).symm⟩
    · cases parsed

/-- The repository of all objects. -/
def allObjects : Repository twoTrees where
  object
    | .blob data => some (.blob data)
    | .tree data => (twoTrees.parse data).map .tree
  rank
    | .blob _ => 0
    | .tree data => if data = lit "1" then 1 else 2
  ranked id entries found entry inside := by
    cases id with
    | blob data => cases found
    | tree data =>
      obtain ⟨rfl, rfl⟩ | ⟨rfl, rfl⟩ := twoTrees_parse found
      · revert entry
        decide
      · revert entry
        decide
  names id entries found := by
    cases id with
    | blob data => cases found
    | tree data =>
      obtain ⟨rfl, rfl⟩ | ⟨rfl, rfl⟩ := twoTrees_parse found
      · decide
      · decide
  readData
    | .blob data => some data
    | .tree data => (twoTrees.parse data).map fun _ => data
  readData_isSome id := by
    cases id with
    | blob data => rfl
    | tree data => simp
  blob_data id data found := by
    cases id with
    | blob data =>
      cases found
      exact ⟨rfl, rfl⟩
    | tree data =>
      obtain ⟨entries', -, same⟩ := map_eq_some_iff.mp found
      cases same
  tree_data id entries found := by
    cases id with
    | blob data => cases found
    | tree data =>
      obtain ⟨entries', parsed, same⟩ := map_eq_some_iff.mp found
      cases same
      exact ⟨data, map_eq_some_iff.mpr ⟨entries, parsed, rfl⟩, parsed, rfl⟩
  modes id entries found entry inside target isTarget := by
    cases id with
    | blob data => cases found
    | tree data =>
      obtain ⟨rfl, rfl⟩ | ⟨rfl, rfl⟩ := twoTrees_parse found
      · cases mem_singleton.mp inside
        exact ⟨_, (some.inj isTarget).symm⟩
      · simp only [shared, mem_cons, not_mem_nil, or_false] at inside
        obtain rfl | rfl | rfl | rfl | rfl := inside
        · exact ⟨_, (some.inj isTarget).symm⟩
        · exact ⟨_, (some.inj isTarget).symm⟩
        · exact ⟨_, (some.inj isTarget).symm⟩
        · exact ⟨_, (some.inj isTarget).symm⟩
        · exact ⟨_, (some.inj isTarget).symm⟩

/-- A store that takes everything. -/
def takesAll : Endpoint ArtifactBlob (Tree.ArtifactDigest ObjectId)
    (List (Tree.ArtifactDigest ObjectId)) where
  missing digests world := (digests.filter (· ∉ world), world)
  upload blobs world := (true, blobs, world ++ blobs.map (ArtifactBlob.digest twoTrees))

theorem takesAll_behaves :
    Behaves takesAll (ArtifactBlob.digest twoTrees) fun world digest => digest ∈ world where
  missing digests world digest asked unreported := by
    by_contra absent
    exact unreported (mem_filter.mpr ⟨asked, by simpa using absent⟩)
  missing_same _ _ := rfl
  upload_subset _ _ := List.Subset.refl _
  upload_stored blobs world digest := by simp [takesAll]
  upload_success blobs world _ blob inside := mem_append_right _ (mem_map.mpr ⟨blob, inside, rfl⟩)

/-- Containers are iterated over as they are listed. -/
def asListed : Orders ObjectId (List (Tree.ArtifactDigest ObjectId)) where
  entries _ list := list
  references _ list := list
  entries_perm _ list := .refl list
  references_perm _ list := .refl list

/-- The tree with shared entries. -/
def sharedTree : GitTree ObjectId := fromEntries (.tree (lit "2")) false (typed shared)

theorem uploads_keep_closed_shared :
    (∀ (repo : Repository twoTrees) tree, IsRead repo tree →
      KeepsClosed twoTrees (fun world digest => digest ∈ world) (fun digest => digest ∈ [])
        (fun other => ∃ entry ∈ tree.entries, other = entryDigest entry.2)
        (repo.verifyOrUploadTree takesAll asListed (repo.rank tree.rawId + 1) tree ⟨[], []⟩)) ∧
    (∀ (tree : Option (Repository twoTrees × GitTree ObjectId)) blob info, Found tree info →
      KeepsClosed twoTrees (fun world digest => digest ∈ world) (fun digest => digest ∈ [])
        (fun other => info.digest.isTree = true ∧ other = info.digest)
        (verifyOrUploadGitArtifact takesAll asListed tree blob info ⟨[], []⟩)) ∧
    Found (some (allObjects, sharedTree)) ⟨⟨.tree (lit "2"), true⟩, .tree, false⟩ ∧
    (verifyOrUploadGitArtifact takesAll asListed (some (allObjects, sharedTree)) none
      ⟨⟨.tree (lit "2"), true⟩, .tree, false⟩ ⟨[], []⟩).1 = true ∧
    (verifyOrUploadGitArtifact takesAll asListed (some (allObjects, sharedTree)) none
      ⟨⟨.tree (lit "2"), true⟩, .tree, false⟩ ⟨[], []⟩).2.world =
      [⟨.blob (lit "x"), false⟩, ⟨.blob (lit "x"), false⟩, ⟨.tree (lit "1"), true⟩,
        ⟨.tree (lit "2"), true⟩] := by
  have ⟨trees, artifacts⟩ := @uploads_keep_closed _ _ twoTrees _ takesAll asListed _ []
    takesAll_behaves (fun _ _ same => ObjectId.tree.inj same)
    (fun _ never => absurd never not_mem_nil)
  refine ⟨trees, artifacts, ⟨?_, rfl⟩, by decide, by decide⟩
  intro repo read same
  cases same
  exact ⟨rfl, rfl⟩

end Jst.Verif.GitUploads
