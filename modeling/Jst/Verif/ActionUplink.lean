import Jst.Storage.LocalAc
import Jst.Verif.Uplinking
/-!
# Uplinking entries of the action cache

An entry is uplinked with the files, the directories and the links in the fields of old protocol
versions that its result mentions. The targets of the links in the field of v2.1 and the output
streams are not uplinked, so the youngest generation has them only if it had them before, or if they
are the same blobs as something that is uplinked.
-/
namespace Jst.Verif.ActionUplink

open Execution Storage Storage.Generations Storage.LocalAc Uplinking
open Compactification (ofLarge_injective)

variable {Hash Digest : Type}

variable {cas : LocalCas Hash}

/-! ## Loops -/

theorem allOf_spec {Item State : Type} {call : Item → State → Bool × State}
    {Rel : State → State → Prop} {Done : Item → State → Prop} {Good : State → Prop}
    (refl : ∀ state, Good state → Rel state state)
    (trans : ∀ first second third, Rel first second → Rel second third → Rel first third)
    (good : ∀ before after, Rel before after → Good after)
    (stays : ∀ item before after, Done item before → Rel before after → Done item after)
    {items : List Item} (each : ∀ item ∈ items, ∀ state, Good state →
      Rel state (call item state).2 ∧ ((call item state).1 = true → Done item (call item state).2))
    {state : State} (start : Good state) : Rel state (allOf call items state).2 ∧
      ((allOf call items state).1 = true → ∀ item ∈ items, Done item (allOf call items state).2) := by
  induction items generalizing state with
  | nil => exact ⟨refl state start, fun _ _ impossible => by cases impossible⟩
  | cons item rest step =>
    have here := each item mem_cons_self state start
    rw [allOf]
    cases called : call item state with
    | mk success next =>
      rw [called] at here
      cases success with
      | false => exact ⟨here.1, fun impossible => by cases impossible⟩
      | true =>
        have later := step (forall_mem_cons.mp each).2
          (good _ _ here.1)
        refine ⟨trans _ _ _ here.1 later.1, ?_⟩
        intro all other member
        cases mem_cons.mp member with
        | inl same => exact same ▸ stays item _ _ (here.2 rfl) later.1
        | inr inRest => exact later.2 all other inRest

/-! ## Closures -/

section Closures

variable {protocol : Protocol Hash} {before after : LocalCas Hash}

variable {hash : Hash}

theorem blobStored_grows {content : Str} (stored : BlobStored protocol before content)
    (grows : Grows before after) : BlobStored protocol after content := by
  cases stored with
  | inl plain =>
    obtain ⟨executable, object⟩ := plain
    exact .inl ⟨executable, grows.objects _ _ _ object⟩
  | inr large =>
    obtain ⟨parts, entry, splices⟩ := large
    exact .inr ⟨parts, grows.entries _ _ _ entry, splices.grows grows⟩

/-- A directory message is stored with all it refers to. -/
inductive ClosedDirectory (protocol : Protocol Hash) (cas : LocalCas Hash) : Hash → Prop where
  | directory (content : Str) (files : List (Hash × Bool)) (directories : List Hash)
      (stored : BlobStored protocol cas content)
      (read : protocol.readDirectory content = some (files, directories))
      (blobs : ∀ file ∈ files, HasBlob cas file.1)
      (all : ∀ directory ∈ directories, ClosedDirectory protocol cas directory) :
      ClosedDirectory protocol cas (protocol.hashes.blob content)

theorem ClosedDirectory.grows (closed : ClosedDirectory protocol before hash)
    (grows : Grows before after) : ClosedDirectory protocol after hash := by
  induction closed with
  | directory content files directories stored read blobs _ step =>
    exact .directory content files directories (blobStored_grows stored grows) read
      (fun file member => (blobs file member).grows grows) step

/-- A tree or directory is stored with all it refers to. -/
def ClosedTree (protocol : Protocol Hash) (cas : LocalCas Hash) (hash : Hash) : Prop :=
  if protocol.native then Closed protocol cas (hash, .tree)
  else ClosedDirectory protocol cas hash

/-- A blob is in a tree, at any depth. -/
inductive InTree (protocol : Protocol Hash) : Hash → Hash → Prop where
  | blob (content : Str) (entries : List (Hash × ObjectType)) (entry : Hash × ObjectType)
      (read : protocol.readTreeData content = some entries) (member : entry ∈ entries)
      (isBlob : entry.2 ≠ .tree) : InTree protocol (protocol.hashes.tree content) entry.1
  | tree (content : Str) (entries : List (Hash × ObjectType)) (entry : Hash × ObjectType)
      (hash : Hash) (read : protocol.readTreeData content = some entries) (member : entry ∈ entries)
      (isTree : entry.2 = .tree) (inner : InTree protocol entry.1 hash) :
      InTree protocol (protocol.hashes.tree content) hash

/-- A blob is in a directory, at any depth. The messages of directories are blobs. -/
inductive InDirectory (protocol : Protocol Hash) : Hash → Hash → Prop where
  | message (content : Str) : InDirectory protocol (protocol.hashes.blob content)
      (protocol.hashes.blob content)
  | file (content : Str) (files : List (Hash × Bool)) (directories : List Hash)
      (file : Hash × Bool) (read : protocol.readDirectory content = some (files, directories))
      (member : file ∈ files) : InDirectory protocol (protocol.hashes.blob content) file.1
  | directory (content : Str) (files : List (Hash × Bool)) (directories : List Hash)
      (directory hash : Hash) (read : protocol.readDirectory content = some (files, directories))
      (member : directory ∈ directories) (inner : InDirectory protocol directory hash) :
      InDirectory protocol (protocol.hashes.blob content) hash

/-- A blob is in a tree or directory. -/
def Contains (protocol : Protocol Hash) (tree hash : Hash) : Prop :=
  if protocol.native then InTree protocol tree hash else InDirectory protocol tree hash

theorem hasBlob_of_blobStored {content : Str} (stored : BlobStored protocol cas content) :
    HasBlob cas (protocol.hashes.blob content) := by
  cases stored with
  | inl plain =>
    obtain ⟨executable, object⟩ := plain
    exact hasBlob_of_object executable (isSome_iff_exists.mpr ⟨content, object⟩)
  | inr large =>
    obtain ⟨parts, entry, _⟩ := large
    exact .inr (.inr (isSome_iff_exists.mpr ⟨parts, entry⟩))

theorem hasBlob_of_inTree {tree : Hash} (inside : InTree protocol tree hash)
    (closed : Closed protocol cas (tree, .tree)) : HasBlob cas hash := by
  induction inside with
  | blob content entries entry read member isBlob =>
    generalize key : (protocol.hashes.tree content, ObjectType.tree) = root at closed
    cases closed with
    | blob other type noTree =>
      exact absurd (congrArg snd key).symm noTree
    | tree other others _ otherRead all =>
      cases protocol.hashes.tree_injective (congrArg fst key)
      rw [read] at otherRead
      cases otherRead
      have here := all entry member
      obtain ⟨hash, type⟩ := entry
      cases here with
      | blob found _ _ stored => exact hasBlob_of_blobStored stored
      | tree => exact absurd rfl isBlob
  | tree content entries entry hash read member isTree _ step =>
    generalize key : (protocol.hashes.tree content, ObjectType.tree) = root at closed
    cases closed with
    | blob other type noTree =>
      exact absurd (congrArg snd key).symm noTree
    | tree other others _ otherRead all =>
      cases protocol.hashes.tree_injective (congrArg fst key)
      rw [read] at otherRead
      cases otherRead
      have here := all entry member
      obtain ⟨inner, type⟩ := entry
      cases isTree
      exact step here

theorem hasBlob_of_inDirectory {directory : Hash} (inside : InDirectory protocol directory hash)
    (closed : ClosedDirectory protocol cas directory) : HasBlob cas hash := by
  induction inside with
  | message content =>
    generalize key : protocol.hashes.blob content = root at closed
    cases closed with
    | directory other _ _ stored => exact hasBlob_of_blobStored stored
  | file content files directories file read member =>
    generalize key : protocol.hashes.blob content = root at closed
    cases closed with
    | directory other _ _ _ otherRead blobs _ =>
      cases protocol.hashes.blob_injective key
      rw [read] at otherRead
      cases otherRead
      exact blobs file member
  | directory content files directories inner hash read member _ step =>
    generalize key : protocol.hashes.blob content = root at closed
    cases closed with
    | directory other _ _ _ otherRead _ all =>
      cases protocol.hashes.blob_injective key
      rw [read] at otherRead
      cases otherRead
      exact step (all inner member)

theorem hasBlob_of_contains {tree : Hash} (inside : Contains protocol tree hash)
    (closed : ClosedTree protocol cas tree) : HasBlob cas hash := by
  unfold Contains at inside
  unfold ClosedTree at closed
  cases native : protocol.native with
  | true =>
    simp only [native, ↓reduceIte] at inside closed
    exact hasBlob_of_inTree inside closed
  | false =>
    simp only [native, false_eq_true, ↓reduceIte] at inside closed
    exact hasBlob_of_inDirectory inside closed

end Closures

/-! ## Uplinks from one generation -/

section Uplinks

variable [DecidableEq Hash] {protocol : Protocol Hash} {gens : Generations Hash}

theorem localUplinkBlob_spec (intact : AllIntact protocol gens) (fuel i : Nat) (hash : Hash)
    (executable skipSync spliceResult : Bool) :
    Leaves protocol gens (localUplinkBlob protocol.hashes (fuel + 2) i hash executable skipSync
      spliceResult gens).2 ∧
    ((localUplinkBlob protocol.hashes (fuel + 2) i hash executable skipSync spliceResult
      gens).1 = true →
      HasBlob ((localUplinkBlob protocol.hashes (fuel + 2) i hash executable skipSync spliceResult
        gens).2 0) hash) := by
  by_cases provided : ((gens 0).objects (blobType executable) hash).isSome ∨
      ProvidesBlob (gens i) hash executable skipSync
  · obtain ⟨after, called, leaves, has, _⟩ :=
      localUplinkBlob_of_provided intact fuel spliceResult provided
    rw [called]
    exact ⟨leaves, fun _ => has⟩
  · rw [localUplinkBlob_of_not_provided (fuel + 1) spliceResult provided]
    exact ⟨Leaves.refl intact, fun impossible => by cases impossible⟩

variable {rank : Hash → Nat}

theorem localUplinkGitTree_spec (native : protocol.native = true)
    (ranked : Ranked protocol rank) (intact : AllIntact protocol gens) (fuel i : Nat) {depth : Nat}
    {hash : Hash} (deep : rank hash < depth) (spliceResult : Bool) :
    Leaves protocol gens (localUplinkGitTree protocol (fuel + 2) i depth hash spliceResult gens).2 ∧
    ((localUplinkGitTree protocol (fuel + 2) i depth hash spliceResult gens).1 = true →
      HasTree ((localUplinkGitTree protocol (fuel + 2) i depth hash spliceResult gens).2 0)
        hash) := by
  by_cases provided : ((gens 0).objects .tree hash).isSome ∨ HasTree (gens i) hash
  · obtain ⟨after, called, leaves, has, _⟩ :=
      localUplinkGitTree_of_provided native ranked fuel i deep spliceResult intact provided
    rw [called]
    exact ⟨leaves, fun _ => has⟩
  · rw [localUplinkGitTree_of_not_provided native (fuel + 2) i depth spliceResult provided]
    exact ⟨Leaves.refl intact, fun impossible => by cases impossible⟩

omit [DecidableEq Hash] in
theorem treeType_of_compatible (compatible : protocol.native = false) :
    protocol.treeType = .file := by
  rw [Protocol.treeType, compatible]
  rfl

theorem treeContent_compatible (compatible : protocol.native = false)
    (intact : AllIntact protocol gens) (i : Nat) (hash : Hash) :
    (∃ content spliced, treeContent protocol i hash gens = (some (content, spliced), gens) ∧
      protocol.hashes.blob content = hash ∧
      (spliced = true → ∃ parts, (gens i).entries .file hash = some parts)) ∨
    treeContent protocol i hash gens = (none, gens) := by
  unfold treeContent
  rw [treeType_of_compatible compatible]
  cases plain : (gens i).objects .file hash with
  | some content =>
    exact .inl ⟨content, false, rfl, (intact i).addressed .file hash content plain,
      fun impossible => by cases impossible⟩
  | none =>
    cases listed : (gens i).entries .file hash with
    | none =>
      refine .inr ?_
      simp only [StorageType.large, trySplice_of_none listed, Option.map_none]
    | some parts =>
      obtain ⟨content, own, _, spliced⟩ := trySplice_of_entry intact listed
      refine .inl ⟨content, true, ?_, own, fun _ => ⟨parts, rfl⟩⟩
      simp only [StorageType.large, spliced, map_some]

theorem uplinkSplicedTree_compatible (compatible : protocol.native = false)
    (intact : AllIntact protocol gens) (fuel i : Nat) {content : Str} {spliced : Bool}
    (listed : spliced = true →
      ∃ parts, (gens i).entries .file (protocol.hashes.blob content) = some parts) :
    Leaves protocol gens (uplinkSplicedTree protocol (fuel + 2) i (protocol.hashes.blob content)
      spliced gens) ∧
    (spliced = true → (((uplinkSplicedTree protocol (fuel + 2) i (protocol.hashes.blob content)
      spliced gens) 0).entries .file (protocol.hashes.blob content)).isSome) := by
  unfold uplinkSplicedTree
  cases spliced with
  | false => exact ⟨Leaves.refl intact, fun impossible => by cases impossible⟩
  | true =>
    obtain ⟨parts, entry⟩ := listed rfl
    obtain ⟨after, called, leaves, available⟩ := @localUplinkLargeObject_of_entry _ _ protocol gens
      intact (fuel + 1) i .file content parts entry (fun impossible => by cases impossible)
    have same : localUplinkLargeObject
        (fun part => localUplinkBlob protocol.hashes (fuel + 2) i part false true false) i .file
        (protocol.hashes.blob content) gens = (true, after) := called
    rw [treeType_of_compatible compatible, if_pos rfl]
    simp only [StorageType.large, same]
    exact ⟨leaves, fun _ => available⟩

/-- The directories seen are closed in the youngest generation. -/
def SeenClosed (protocol : Protocol Hash) (state : List Hash × Generations Hash) : Prop :=
  AllIntact protocol state.2 ∧ ∀ hash ∈ state.1, ClosedDirectory protocol (state.2 0) hash

/-- What an uplink of directories keeps. -/
def SeenLeaves (protocol : Protocol Hash) (before after : List Hash × Generations Hash) : Prop :=
  Leaves protocol before.2 after.2 ∧ SeenClosed protocol after

section
omit [DecidableEq Hash]

theorem SeenClosed.grows {seen : List Hash} {after : Generations Hash}
    (closed : SeenClosed protocol (seen, gens)) (leaves : Leaves protocol gens after) :
    SeenClosed protocol (seen, after) :=
  ⟨leaves.intact, fun hash member => (closed.2 hash member).grows (leaves.grow 0)⟩

theorem blobStored_of_content (intact : Intact protocol cas) {content : Str}
    (has : HasBlob cas (protocol.hashes.blob content)) : BlobStored protocol cas content := by
  obtain ⟨other, same, stored⟩ := blobStored_of_hasBlob intact has
  rw [protocol.hashes.blob_injective same] at stored
  exact stored

end

theorem localUplinkBazelDirectory_spec (compatible : protocol.native = false) (fuel i : Nat)
    {depth : Nat} {hash : Hash} {spliceResult : Bool} {state : List Hash × Generations Hash}
    (start : SeenClosed protocol state) : SeenLeaves protocol state
      (localUplinkBazelDirectory protocol (fuel + 2) i depth hash spliceResult state).2 ∧
    ((localUplinkBazelDirectory protocol (fuel + 2) i depth hash spliceResult state).1 = true →
      ClosedDirectory protocol
        ((localUplinkBazelDirectory protocol (fuel + 2) i depth hash spliceResult state).2.2 0)
        hash) := by
  induction depth generalizing hash spliceResult state with
  | zero => exact ⟨⟨Leaves.refl start.1, start⟩, fun impossible => by cases impossible⟩
  | succ depth step =>
    obtain ⟨seen, gens⟩ := state
    have nothing : SeenLeaves protocol (seen, gens) (seen, gens) := ⟨Leaves.refl start.1, start⟩
    unfold localUplinkBazelDirectory
    split
    · next member => exact ⟨nothing, fun _ => start.2 hash member⟩
    · rcases treeContent_compatible compatible start.1 i hash with
        ⟨content, spliced, found, rfl, listed⟩ | missing
      · rw [found]
        simp only
        cases read : protocol.readDirectory content with
        | none => exact ⟨nothing, fun impossible => by cases impossible⟩
        | some message =>
          obtain ⟨files, directories⟩ := message
          simp only
          -- the files
          have uplinked := @allOf_spec _ _
            (fun (file : Hash × Bool) =>
              localUplinkBlob protocol.hashes (fuel + 2) i file.1 file.2 false false)
            (Leaves protocol) (fun file state => HasBlob (state 0) file.1) (AllIntact protocol)
            (fun _ intact => Leaves.refl intact) (fun _ _ _ front back => front.trans back)
            (fun _ _ leaves => leaves.intact)
            (fun _ _ _ has leaves => has.grows (leaves.grow 0)) files
            (fun file _ _ intact => localUplinkBlob_spec intact fuel i file.1 file.2 false false)
            gens start.1
          cases filesCalled : allOf (fun (file : Hash × Bool) =>
              localUplinkBlob protocol.hashes (fuel + 2) i file.1 file.2 false false) files gens with
          | mk filesDone afterFiles =>
            rw [filesCalled] at uplinked
            have closedFiles := start.grows uplinked.1
            cases filesDone with
            | false =>
              exact ⟨⟨uplinked.1, closedFiles⟩, fun impossible => by cases impossible⟩
            | true =>
              simp only
              -- the directories in it
              have inner := @allOf_spec _ _
                (fun directory => localUplinkBazelDirectory protocol (fuel + 2) i depth directory
                  false)
                (SeenLeaves protocol)
                (fun directory state => ClosedDirectory protocol (state.2 0) directory)
                (SeenClosed protocol) (fun _ closed => ⟨Leaves.refl closed.1, closed⟩)
                (fun _ _ _ front back => ⟨front.1.trans back.1, back.2⟩)
                (fun _ _ leaves => leaves.2)
                (fun _ _ _ closed leaves => closed.grows (leaves.1.grow 0)) directories
                (fun directory _ _ closed => step closed)
                (seen, afterFiles) closedFiles
              cases directoriesCalled : allOf (fun directory =>
                  localUplinkBazelDirectory protocol (fuel + 2) i depth directory false)
                  directories (seen, afterFiles) with
              | mk directoriesDone state =>
                rw [directoriesCalled] at inner
                obtain ⟨others, next⟩ := state
                have before := uplinked.1.trans inner.1.1
                cases directoriesDone with
                | false =>
                  exact ⟨⟨before, inner.1.2⟩, fun impossible => by cases impossible⟩
                | true =>
                  simp only
                  -- the message itself
                  have large := @uplinkSplicedTree_compatible _ _ protocol next compatible
                    inner.1.2.1 fuel i content spliced (by
                      intro isSpliced
                      obtain ⟨parts, entry⟩ := listed isSpliced
                      exact ⟨parts, (before.grow i).entries _ _ _ entry⟩)
                  generalize uplinkSplicedTree protocol (fuel + 2) i (protocol.hashes.blob content)
                    spliced next = withEntry at large ⊢
                  have final : ∃ after, (if (spliced && !spliceResult) ||
                      ((next 0).objects protocol.treeType (protocol.hashes.blob content)).isSome
                      then withEntry
                      else store protocol.hashes 0 protocol.treeType content withEntry) = after ∧
                      Leaves protocol withEntry after ∧
                      HasBlob (after 0) (protocol.hashes.blob content) := by
                    rw [treeType_of_compatible compatible]
                    split
                    · next skipped =>
                      refine ⟨withEntry, rfl, Leaves.refl large.1.intact, ?_⟩
                      cases or_eq_true _ _ |>.mp skipped with
                      | inl isSpliced =>
                        exact .inr (.inr (large.2 (and_eq_true _ _ |>.mp isSpliced).1))
                      | inr available =>
                        exact HasBlob.grows (.inl available) (large.1.grow 0)
                    · have stored := store_blob_leaves large.1.intact 0 false content
                      exact ⟨_, rfl, stored.1, .inl (isSome_iff_exists.mpr
                        ⟨content, stored.2⟩)⟩
                  obtain ⟨after, same, leaves, has⟩ := final
                  rw [same]
                  have whole := large.1.trans leaves
                  have closedAfter := inner.1.2.grows whole
                  have closed : ClosedDirectory protocol (after 0)
                      (protocol.hashes.blob content) :=
                    .directory content files directories
                      (blobStored_of_content (leaves.intact 0) has) read
                      (fun file member => ((uplinked.2 rfl file member).grows
                        (inner.1.1.grow 0)).grows (whole.grow 0))
                      (fun directory member => (inner.2 rfl directory member).grows
                        (whole.grow 0))
                  refine ⟨⟨before.trans whole, leaves.intact, ?_⟩, fun _ => closed⟩
                  intro directory member
                  cases mem_cons.mp member with
                  | inl here => exact here ▸ closed
                  | inr old => exact closedAfter.2 directory old
      · rw [missing]
        exact ⟨nothing, fun impossible => by cases impossible⟩

theorem localUplinkTree_spec (ranked : Ranked protocol rank)
    (intact : AllIntact protocol gens) (fuel i : Nat) {depth : Nat} {hash : Hash}
    (deep : rank hash < depth) (spliceResult : Bool) :
    Leaves protocol gens (localUplinkTree protocol (fuel + 2) i depth hash spliceResult gens).2 ∧
    ((localUplinkTree protocol (fuel + 2) i depth hash spliceResult gens).1 = true →
      ClosedTree protocol
        ((localUplinkTree protocol (fuel + 2) i depth hash spliceResult gens).2 0) hash) := by
  unfold localUplinkTree ClosedTree
  cases native : protocol.native with
  | true =>
    simp only [↓reduceIte]
    have spec := localUplinkGitTree_spec native ranked intact fuel i deep spliceResult
    refine ⟨spec.1, fun success => ?_⟩
    exact closed_of_intact ranked (spec.1.intact 0) (fun _ => Nat.lt_succ_self _)
      (spec.2 success)
  | false =>
    simp only [false_eq_true, ↓reduceIte]
    have start : SeenClosed protocol ([], gens) := ⟨intact, fun _ impossible => by cases impossible⟩
    have spec := @localUplinkBazelDirectory_spec _ _ protocol native fuel i depth hash spliceResult
      ([], gens) start
    exact ⟨spec.1.1, spec.2⟩

end Uplinks

/-! ## Entries -/

section Results

variable (protocol : Protocol Hash) (format : AcFormat Hash Digest)

/-- The blob of a digest is stored. -/
def HoldsDigest (cas : LocalCas Hash) (digest : Digest) : Prop :=
  ∃ hash, format.fromBazel digest = some hash ∧ HasBlob cas hash

/-- The directory of a digest is stored with all it refers to. -/
def HoldsDirectory (cas : LocalCas Hash) (digest : Digest) : Prop :=
  ∃ hash, format.fromBazel digest = some hash ∧ ClosedTree protocol cas hash

/-- The target of a symbolic link is stored. -/
def HoldsTarget (cas : LocalCas Hash) (link : OutputSymlink) : Prop :=
  HasBlob cas (protocol.hashes.blob link.target)

/-- All objects are stored that a result mentions. -/
structure HoldsResult (cas : LocalCas Hash) (result : ActionResult Digest) : Prop where
  files : ∀ file ∈ result.outputFiles, HoldsDigest format cas file.digest
  directories : ∀ directory ∈ result.outputDirectories,
    HoldsDirectory protocol format cas directory.treeDigest
  symlinks : ∀ link ∈ result.outputSymlinks, HoldsTarget protocol cas link
  fileSymlinks : ∀ link ∈ result.outputFileSymlinks, HoldsTarget protocol cas link
  directorySymlinks : ∀ link ∈ result.outputDirectorySymlinks, HoldsTarget protocol cas link
  stdout : ∀ digest, result.stdoutDigest = some digest → HoldsDigest format cas digest
  stderr : ∀ digest, result.stderrDigest = some digest → HoldsDigest format cas digest

/-- A result is stored under a key. -/
def ResultStored (cas : LocalCas Hash) (key : Hash) (result : ActionResult Digest) : Prop :=
  ∃ content, protocol.hashes.blob content = key ∧ BlobStored protocol cas content ∧
    format.readAction content = some result

/-- A key file names a result, and all is stored that the result mentions. -/
def CompleteEntry (cas : LocalCas Hash) (file : Str) : Prop :=
  ∃ key result, format.readKey file = some key ∧ ResultStored protocol format cas key result ∧
    HoldsResult protocol format cas result

/-- The entries of a generation are complete. -/
def CompleteAc (state : AcState Hash) (i : Nat) : Prop :=
  ∀ actionId file, state.keys i actionId = some file →
    CompleteEntry protocol format (state.gens i) file

/-- A blob that a result mentions where an uplink does not look. -/
def LeftOut (result : ActionResult Digest) (hash : Hash) : Prop :=
  (∃ link ∈ result.outputSymlinks, protocol.hashes.blob link.target = hash) ∨
    ∃ digest, (result.stdoutDigest = some digest ∨ result.stderrDigest = some digest) ∧
      format.fromBazel digest = some hash

/-- A blob is uplinked with a result: as its key, or as something that it mentions elsewhere. -/
def AmongUplinked (key : Hash) (result : ActionResult Digest) (hash : Hash) : Prop :=
  hash = key ∨ (∃ file ∈ result.outputFiles, format.fromBazel file.digest = some hash) ∨
    (∃ link ∈ result.outputFileSymlinks, protocol.hashes.blob link.target = hash) ∨
    (∃ link ∈ result.outputDirectorySymlinks, protocol.hashes.blob link.target = hash) ∨
    ∃ directory ∈ result.outputDirectories, ∃ tree,
      format.fromBazel directory.treeDigest = some tree ∧ Contains protocol tree hash

/-- The youngest generation has the entry, or it has what an uplink leaves out of the result, or
that is uplinked for another reason. -/
def Covered (i : Nat) (actionId : Hash) (state : AcState Hash) : Prop :=
  (state.keys 0 actionId).isSome ∨
    ∀ file key result, state.keys i actionId = some file → format.readKey file = some key →
      ResultStored protocol format (state.gens i) key result →
      ∀ hash, LeftOut protocol format result hash →
        HasBlob (state.gens 0) hash ∨ AmongUplinked protocol format key result hash

/-- The youngest generation has the entry with all it mentions. -/
def EntryHeld (actionId : Hash) (state : AcState Hash) : Prop :=
  ∃ file, state.keys 0 actionId = some file ∧ CompleteEntry protocol format (state.gens 0) file

end Results

section Entries

variable [DecidableEq Hash] {protocol : Protocol Hash} {format : AcFormat Hash Digest}
  {gens : Generations Hash}

section
omit [DecidableEq Hash]

theorem HoldsDigest.grows {before after : LocalCas Hash} {digest : Digest}
    (holds : HoldsDigest format before digest) (grows : Grows before after) :
    HoldsDigest format after digest := by
  obtain ⟨hash, own, has⟩ := holds
  exact ⟨hash, own, has.grows grows⟩

theorem ClosedTree.grows {rank : Hash → Nat} (ranked : Ranked protocol rank)
    {before after : LocalCas Hash} (intact : Intact protocol after) {hash : Hash}
    (closed : ClosedTree protocol before hash) (grows : Grows before after) :
    ClosedTree protocol after hash := by
  unfold ClosedTree at closed ⊢
  split
  · next native =>
    rw [if_pos native] at closed
    generalize key : (hash, ObjectType.tree) = root at closed
    cases closed with
    | blob other type noTree =>
      exact absurd (congrArg snd key).symm noTree
    | tree content entries stored =>
      cases congrArg fst key
      refine closed_of_intact ranked intact (fun _ => Nat.lt_succ_self _) ?_
      have has : HasTree after (protocol.hashes.tree content) := by
        cases stored with
        | inl object =>
          exact .inl (isSome_iff_exists.mpr ⟨content, grows.objects _ _ _ object⟩)
        | inr large =>
          obtain ⟨parts, entry, _⟩ := large
          exact .inr (isSome_iff_exists.mpr ⟨parts, grows.entries _ _ _ entry⟩)
      unfold HasEntry
      rw [if_pos rfl]
      exact has
  · next compatible =>
    rw [if_neg compatible] at closed
    exact closed.grows grows

end

theorem readAction_spec (intact : AllIntact protocol gens) (i : Nat) (key : Hash) :
    Leaves protocol gens (readAction protocol format i key gens).2 ∧
    ∀ result, (readAction protocol format i key gens).1 = some result →
      ∃ content, protocol.hashes.blob content = key ∧ format.readAction content = some result := by
  unfold readAction
  rcases blobPath_cases intact i key false with ⟨content, after, found, own, leaves⟩ | missing
  · rw [found]
    exact ⟨leaves, fun result read => ⟨content, own, read⟩⟩
  · rw [missing.1]
    exact ⟨Leaves.refl intact, fun _ impossible => by cases impossible⟩

omit [DecidableEq Hash] in
theorem uplinkAll_spec {Item : Type} {call : Item → Generations Hash → Bool × Generations Hash}
    {Done : Item → LocalCas Hash → Prop} {items : List Item}
    (stays : ∀ item before after, Intact protocol after → Done item before → Grows before after →
      Done item after) (each : ∀ item ∈ items, ∀ gens, AllIntact protocol gens →
      Leaves protocol gens (call item gens).2 ∧
        ((call item gens).1 = true → Done item ((call item gens).2 0)))
    (intact : AllIntact protocol gens) : Leaves protocol gens (allOf call items gens).2 ∧
      ((allOf call items gens).1 = true → ∀ item ∈ items, Done item ((allOf call items gens).2 0)) :=
  @allOf_spec _ _ call (Leaves protocol) (fun item state => Done item (state 0))
    (AllIntact protocol) (fun _ intact => Leaves.refl intact)
    (fun _ _ _ front back => front.trans back) (fun _ _ leaves => leaves.intact)
    (fun item _ _ done leaves => stays item _ _ (leaves.intact 0) done (leaves.grow 0)) items each
    gens intact

theorem uplinkResult_spec {rank : Hash → Nat} (ranked : Ranked protocol rank)
    (intact : AllIntact protocol gens) (fuel i : Nat) {depth : Nat} {result : ActionResult Digest}
    (deep : ∀ directory ∈ result.outputDirectories, ∀ hash,
      format.fromBazel directory.treeDigest = some hash → rank hash < depth) :
    Leaves protocol gens (uplinkResult protocol format (fuel + 2) depth i result gens).2 ∧
    ((uplinkResult protocol format (fuel + 2) depth i result gens).1 = true →
      ∀ cas, cas = (uplinkResult protocol format (fuel + 2) depth i result gens).2 0 →
      (∀ file ∈ result.outputFiles, HoldsDigest format cas file.digest) ∧
      (∀ link ∈ result.outputFileSymlinks, HoldsTarget protocol cas link) ∧
      (∀ link ∈ result.outputDirectorySymlinks, HoldsTarget protocol cas link) ∧
      ∀ directory ∈ result.outputDirectories,
        HoldsDirectory protocol format cas directory.treeDigest) := by
  have linkStays : ∀ (link : OutputSymlink) (before after : LocalCas Hash), Intact protocol after →
      HoldsTarget protocol before link → Grows before after → HoldsTarget protocol after link :=
    fun _ _ _ _ holds grows => HasBlob.grows holds grows
  have eachLink : ∀ (link : OutputSymlink) (gens : Generations Hash), AllIntact protocol gens →
      Leaves protocol gens (uplinkTarget protocol (fuel + 2) i link gens).2 ∧
        ((uplinkTarget protocol (fuel + 2) i link gens).1 = true →
          HoldsTarget protocol ((uplinkTarget protocol (fuel + 2) i link gens).2 0) link) :=
    fun link _ intact => localUplinkBlob_spec intact fuel i _ false false false
  have files := @uplinkAll_spec Hash protocol gens (OutputFile Digest)
    (fun file => uplinkDigest protocol format (fuel + 2) i file.digest file.isExecutable)
    (fun file cas => HoldsDigest format cas file.digest) result.outputFiles
    (fun _ _ _ _ holds grows => holds.grows grows) (by
      intro file _ gens intact
      unfold uplinkDigest
      cases own : format.fromBazel file.digest with
      | none => exact ⟨Leaves.refl intact, fun impossible => by cases impossible⟩
      | some hash =>
        have spec := localUplinkBlob_spec intact fuel i hash file.isExecutable false false
        exact ⟨spec.1, fun success => ⟨hash, own, spec.2 success⟩⟩) intact
  unfold uplinkResult
  cases filesCalled : allOf
      (fun file => uplinkDigest protocol format (fuel + 2) i file.digest file.isExecutable)
      result.outputFiles gens with
  | mk filesDone afterFiles =>
    rw [filesCalled] at files
    cases filesDone with
    | false => exact ⟨files.1, fun impossible => by cases impossible⟩
    | true =>
      have fileLinks := @uplinkAll_spec Hash protocol afterFiles OutputSymlink
        (uplinkTarget protocol (fuel + 2) i) (fun link cas => HoldsTarget protocol cas link)
        result.outputFileSymlinks linkStays (fun link _ => eachLink link) files.1.intact
      simp only
      cases fileLinksCalled : allOf (uplinkTarget protocol (fuel + 2) i) result.outputFileSymlinks
          afterFiles with
      | mk fileLinksDone afterFileLinks =>
        rw [fileLinksCalled] at fileLinks
        have two := files.1.trans fileLinks.1
        cases fileLinksDone with
        | false => exact ⟨two, fun impossible => by cases impossible⟩
        | true =>
          have directoryLinks := @uplinkAll_spec Hash protocol afterFileLinks OutputSymlink
            (uplinkTarget protocol (fuel + 2) i) (fun link cas => HoldsTarget protocol cas link)
            result.outputDirectorySymlinks linkStays (fun link _ => eachLink link) two.intact
          simp only
          cases directoryLinksCalled : allOf (uplinkTarget protocol (fuel + 2) i)
              result.outputDirectorySymlinks afterFileLinks with
          | mk directoryLinksDone afterDirectoryLinks =>
            rw [directoryLinksCalled] at directoryLinks
            have three := two.trans directoryLinks.1
            cases directoryLinksDone with
            | false => exact ⟨three, fun impossible => by cases impossible⟩
            | true =>
              have directories := @uplinkAll_spec Hash protocol afterDirectoryLinks
                (OutputDirectory Digest)
                (uplinkDirectory protocol format (fuel + 2) depth i)
                (fun directory cas => HoldsDirectory protocol format cas directory.treeDigest)
                result.outputDirectories (by
                  rintro directory before after complete ⟨hash, own, closed⟩ grows
                  exact ⟨hash, own, ClosedTree.grows ranked complete closed grows⟩) (by
                  intro directory member gens intact
                  unfold uplinkDirectory
                  cases own : format.fromBazel directory.treeDigest with
                  | none => exact ⟨Leaves.refl intact, fun impossible => by cases impossible⟩
                  | some hash =>
                    have spec := localUplinkTree_spec ranked intact fuel i
                      (deep directory member hash own) false
                    exact ⟨spec.1, fun success => ⟨hash, own, spec.2 success⟩⟩) three.intact
              simp only
              refine ⟨three.trans directories.1, ?_⟩
              rintro success _ rfl
              have rest := directories.1.grow 0
              refine ⟨?_, ?_, ?_, directories.2 success⟩
              · intro file member
                exact (files.2 rfl file member).grows
                  (((fileLinks.1.trans directoryLinks.1).grow 0).trans rest)
              · intro link member
                exact HasBlob.grows (fileLinks.2 rfl link member)
                  ((directoryLinks.1.grow 0).trans rest)
              · intro link member
                exact HasBlob.grows (directoryLinks.2 rfl link member) rest

omit [DecidableEq Hash] in
theorem hasBlob_of_amongUplinked {key : Hash} {result : ActionResult Digest}
    (hasKey : HasBlob cas key)
    (files : ∀ file ∈ result.outputFiles, HoldsDigest format cas file.digest)
    (fileLinks : ∀ link ∈ result.outputFileSymlinks, HoldsTarget protocol cas link)
    (directoryLinks : ∀ link ∈ result.outputDirectorySymlinks, HoldsTarget protocol cas link)
    (directories : ∀ directory ∈ result.outputDirectories,
      HoldsDirectory protocol format cas directory.treeDigest) {hash : Hash}
    (among : AmongUplinked protocol format key result hash) : HasBlob cas hash := by
  rcases among with rfl | ⟨file, member, own⟩ | ⟨link, member, rfl⟩ | ⟨link, member, rfl⟩ |
    ⟨directory, member, tree, own, inside⟩
  · exact hasKey
  · obtain ⟨other, same, has⟩ := files file member
    rw [own] at same
    cases same
    exact has
  · exact fileLinks link member
  · exact directoryLinks link member
  · obtain ⟨other, same, closed⟩ := directories directory member
    rw [own] at same
    cases same
    exact hasBlob_of_contains inside closed

/-- After a successful uplink the youngest generation has the entry with all it mentions, if the
blobs are covered that an uplink leaves out. -/
theorem localUplinkEntry_held {rank : Hash → Nat} (ranked : Ranked protocol rank) (fuel i : Nat)
    {depth : Nat} {actionId : Hash} {state : AcState Hash} (intact : AllIntact protocol state.gens)
    (complete : ∀ j, CompleteAc protocol format state j)
    (deep : ∀ file key result, state.keys i actionId = some file → format.readKey file = some key →
      ResultStored protocol format (state.gens i) key result →
      ∀ directory ∈ result.outputDirectories, ∀ hash,
        format.fromBazel directory.treeDigest = some hash → rank hash < depth)
    (covered : Covered protocol format i actionId state)
    (success : (localUplinkEntry protocol format (fuel + 2) depth i actionId state).1 = true) :
    EntryHeld protocol format actionId
      (localUplinkEntry protocol format (fuel + 2) depth i actionId state).2 := by
  unfold localUplinkEntry at success ⊢
  split at success
  · next youngest =>
    obtain ⟨file, found⟩ := isSome_iff_exists.mp youngest
    rw [if_pos youngest]
    exact ⟨file, found, complete 0 actionId file found⟩
  · next older =>
    rw [if_neg older]
    cases found : state.keys i actionId with
    | none => simp only [found, false_eq_true] at success
    | some file =>
      obtain ⟨key, result, ownKey, stored, holds⟩ := complete i actionId file found
      simp only [found, ownKey] at success ⊢
      have read := @readAction_spec _ Digest _ protocol format state.gens intact i key
      cases readCalled : readAction protocol format i key state.gens with
      | mk readResult afterRead =>
        rw [readCalled] at read success
        cases readResult with
        | none => cases success
        | some other =>
          obtain ⟨content, ownContent, parsed⟩ := read.2 other rfl
          obtain ⟨same, sameHash, _, sameParsed⟩ := id stored
          rw [protocol.hashes.blob_injective (sameHash.trans ownContent.symm)] at sameParsed
          rw [parsed] at sameParsed
          cases sameParsed
          simp only at success ⊢
          have uplinked := @uplinkResult_spec _ _ _ protocol format afterRead rank ranked
            read.1.intact fuel i depth result (deep file key result found ownKey stored)
          cases uplinkCalled : uplinkResult protocol format (fuel + 2) depth i result afterRead with
          | mk uplinkDone afterUplink =>
            rw [uplinkCalled] at uplinked success
            cases uplinkDone with
            | false => cases success
            | true =>
              simp only at success ⊢
              have keyUplinked := localUplinkBlob_spec uplinked.1.intact fuel i key false false
                false
              cases keyCalled : localUplinkBlob protocol.hashes (fuel + 2) i key false false false
                  afterUplink with
              | mk keyDone after =>
                rw [keyCalled] at keyUplinked success
                cases keyDone with
                | false => cases success
                | true =>
                  simp only
                  have last := keyUplinked.1.grow 0
                  have hasKey := keyUplinked.2 rfl
                  obtain ⟨files, fileLinks, directoryLinks, directories⟩ := uplinked.2 rfl _ rfl
                  have files := fun file member => (files file member).grows last
                  have fileLinks : ∀ link ∈ result.outputFileSymlinks,
                      HoldsTarget protocol (after 0) link :=
                    fun link member => HasBlob.grows (fileLinks link member) last
                  have directoryLinks : ∀ link ∈ result.outputDirectorySymlinks,
                      HoldsTarget protocol (after 0) link :=
                    fun link member => HasBlob.grows (directoryLinks link member) last
                  have directories : ∀ directory ∈ result.outputDirectories,
                      HoldsDirectory protocol format (after 0) directory.treeDigest := by
                    intro directory member
                    obtain ⟨hash, own, closed⟩ := directories directory member
                    exact ⟨hash, own, ClosedTree.grows ranked (keyUplinked.1.intact 0) closed last⟩
                  have all := (read.1.trans uplinked.1).trans keyUplinked.1
                  have leftOut : ∀ hash, LeftOut protocol format result hash →
                      HasBlob (after 0) hash := by
                    intro hash mentioned
                    have cover := (covered.resolve_left older) file key result found ownKey stored
                      hash mentioned
                    cases cover with
                    | inl before => exact before.grows (all.grow 0)
                    | inr among =>
                      exact hasBlob_of_amongUplinked hasKey files fileLinks directoryLinks
                        directories among
                  refine ⟨file, ?_, key, result, ownKey, ⟨content, ownContent, ?_, parsed⟩, ?_⟩
                  · simp only [update_self]
                  · rw [← ownContent] at hasKey
                    exact blobStored_of_content (keyUplinked.1.intact 0) hasKey
                  · exact
                      { files := files
                        directories := directories
                        symlinks := fun link member => leftOut _ (.inl ⟨link, member, rfl⟩)
                        fileSymlinks := fileLinks
                        directorySymlinks := directoryLinks
                        stdout := by
                          intro digest set
                          obtain ⟨hash, own, _⟩ := holds.stdout digest set
                          exact ⟨hash, own, leftOut hash (.inr ⟨digest, .inl set, own⟩)⟩
                        stderr := by
                          intro digest set
                          obtain ⟨hash, own, _⟩ := holds.stderr digest set
                          exact ⟨hash, own, leftOut hash (.inr ⟨digest, .inr set, own⟩)⟩ }

end Entries

/-! ## A link of v2.1 -/

/-- The result of an action whose output is a symbolic link, as a local action writes it. -/
def linkResult (mode : RequestMode) : ActionResult Str :=
  (LocalAction.collectAndStoreOutputs (fun _ => true) (fun _ => some (.symlink [5])) mode
    ⟨[[1]], [[1]], []⟩ (.empty none none 0)).2

/-- Keys are written as they are, and the result is the only one. -/
def linkFormat (mode : RequestMode) : AcFormat Str Str where
  readKey := some
  readAction _ := some (linkResult mode)
  fromBazel := some

/-- An older generation has the entry, the blob of the result and the target of the link. -/
def linkState : AcState Str where
  gens i :=
    { objects := fun type hash =>
        if i = 1 ∧ type = .file ∧ (hash = [5] ∨ hash = [7]) then some hash else none
      entries := fun _ _ => none }
  keys i actionId := if i = 1 ∧ actionId = [9] then some [7] else none

theorem linkState_intact : AllIntact plainProtocol linkState.gens := by
  intro i
  refine ⟨?_, fun _ _ _ impossible => (by cases impossible),
    fun content _ => ⟨[], rfl, fun _ impossible => by cases impossible⟩⟩
  intro type hash content stored
  obtain ⟨⟨_, rfl, _⟩, same⟩ := Option.ite_none_right_eq_some.mp stored
  exact (some.inj same).symm

theorem linkState_complete (mode : RequestMode) (j : Nat) :
    CompleteAc plainProtocol (linkFormat mode) linkState j := by
  intro actionId file found
  obtain ⟨⟨rfl, rfl⟩, same⟩ := Option.ite_none_right_eq_some.mp found
  cases same
  have target : ∀ link ∈ [(⟨[1], [5]⟩ : OutputSymlink)],
      HoldsTarget plainProtocol (linkState.gens 1) link := by
    intro link member
    rw [mem_singleton.mp member]
    exact .inl rfl
  have nothing : ∀ link ∈ ([] : List OutputSymlink),
      HoldsTarget plainProtocol (linkState.gens 1) link := fun _ impossible => by cases impossible
  refine ⟨[7], linkResult mode, rfl, ⟨[7], rfl, .inl ⟨false, rfl⟩, rfl⟩, ?_⟩
  cases mode with
  | v2_0 =>
    exact ⟨fun _ impossible => (by cases impossible), fun _ impossible => (by cases impossible),
      nothing, target, nothing, fun _ impossible => (by cases impossible),
      fun _ impossible => by cases impossible⟩
  | v2_1 =>
    exact ⟨fun _ impossible => (by cases impossible), fun _ impossible => (by cases impossible),
      target, nothing, nothing, fun _ impossible => (by cases impossible),
      fun _ impossible => by cases impossible⟩
  | bestEffort =>
    exact ⟨fun _ impossible => (by cases impossible), fun _ impossible => (by cases impossible),
      target, target, nothing, fun _ impossible => (by cases impossible),
      fun _ impossible => by cases impossible⟩

theorem old_link_held :
    EntryHeld plainProtocol (linkFormat .v2_0) [9]
      (localUplinkEntry plainProtocol (linkFormat .v2_0) 2 1 1 [9] linkState).2 :=
  localUplinkEntry_held plainProtocol_ranked 0 1 linkState_intact (linkState_complete .v2_0)
    (by
      rintro file key result - - ⟨_, _, _, read⟩ directory member
      cases read
      cases member)
    (by
      refine .inr ?_
      rintro file key result - - ⟨_, _, _, read⟩ hash leftOut
      cases read
      rcases leftOut with ⟨_, member, _⟩ | ⟨_, impossible | impossible, _⟩
      · cases member
      · cases impossible
      · cases impossible)
    (by decide)

theorem link_target_left_behind :
    ¬ ∀ (mode : RequestMode) (state : AcState Str), AllIntact plainProtocol state.gens →
      (∀ j, CompleteAc plainProtocol (linkFormat mode) state j) →
      (localUplinkEntry plainProtocol (linkFormat mode) 2 1 1 [9] state).1 = true →
      EntryHeld plainProtocol (linkFormat mode) [9]
        (localUplinkEntry plainProtocol (linkFormat mode) 2 1 1 [9] state).2 := by
  intro always
  obtain ⟨file, _, key, result, _, ⟨_, _, _, read⟩, holds⟩ :=
    always .v2_1 linkState linkState_intact (linkState_complete .v2_1) (by decide)
  cases read
  rcases holds.symlinks ⟨[1], [5]⟩ (mem_singleton.mpr rfl) with plain | program | entry
  · revert plain
    decide
  · revert program
    decide
  · revert entry
    decide

end Jst.Verif.ActionUplink
