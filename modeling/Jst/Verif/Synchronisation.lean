import Mathlib.Data.List.Dedup
import Mathlib.Data.Prod.Lex
import Jst.Execution.RetrieveToCas
import Jst.Data.Runs
import Jst.Verif.TreeReading
/-!
# Synchronising to a store in which trees are complete

A store is closed if it has all entries of the trees it has. Synchronising transfers an object only
after the entries of the object, and looks no further below what the target has. That keeps the
target closed after each request, and makes all requested objects available with everything below
them, if each tree that can be transferred can also be read, and no digest of a tree is needed as
something else. The first condition fails for trees that are left out by mistake: one that cannot be
read passes for one without entries.
-/
namespace Jst.Verif.Synchronisation

open Tree Execution Runs TreeReading
open Prod (Lex)

variable {Hash : Type} [DecidableEq Hash] {formats : Formats Hash}
  {splits : ArtifactDigest Hash → List (ArtifactDigest Hash) → Prop} {splitting : Bool}
  {trees : ArtifactDigest Hash → Prop} {source target : Store Hash}
  {requests : List (ObjectInfo Hash)}

variable {targetNow sourceNow sourceNext more targetNext : Store Hash} {info tree : ObjectInfo Hash}
  {infos : List (ObjectInfo Hash)} {depth : ArtifactDigest Hash → Nat}
  {report : Option (Option (List (ObjectInfo Hash)))} {digest : ArtifactDigest Hash}
  {state next : State Hash} {task : Transfer Hash} {left : Option (Transfer Hash)}
  {callers : List (Call Hash)} {call : Call Hash}

/-! ## What is missing -/

theorem backMap_concat (infos : List (ObjectInfo Hash)) (info : ObjectInfo Hash) :
    backMap (infos ++ [info]) =
      if (backMap infos).any fun entry => entry.1 = info.digest then backMap infos
      else backMap infos ++ [(info.digest, info)] := by
  simp only [backMap, foldl_append, foldl_cons, List.foldl_nil]
  rfl

theorem of_mem_backMap {entry : ArtifactDigest Hash × ObjectInfo Hash}
    (member : entry ∈ backMap infos) : entry.1 = entry.2.digest ∧ entry.2 ∈ infos := by
  induction infos using List.reverseRecOn with
  | nil => cases member
  | append_singleton infos info step =>
    rw [backMap_concat] at member
    have earlier : entry ∈ backMap infos → entry.1 = entry.2.digest ∧ entry.2 ∈ infos ++ [info] :=
      fun inside => ⟨(step inside).1, mem_append_left _ (step inside).2⟩
    split at member
    · exact earlier member
    · cases mem_append.mp member with
      | inl inside => exact earlier inside
      | inr last =>
        rw [mem_singleton.mp last]
        exact ⟨rfl, by simp⟩

theorem exists_mem_backMap (member : info ∈ infos) : ∃ entry ∈ backMap infos, entry.1 = info.digest := by
  induction infos using List.reverseRecOn with
  | nil => cases member
  | append_singleton infos other step =>
    rw [backMap_concat]
    cases mem_append.mp member with
    | inl inside =>
      obtain ⟨entry, found, same⟩ := step inside
      split
      · exact ⟨entry, found, same⟩
      · exact ⟨entry, mem_append_left _ found, same⟩
    | inr last =>
      rw [mem_singleton.mp last]
      split
      · next known =>
        obtain ⟨entry, found, same⟩ := List.any_eq_true.mp known
        exact ⟨entry, found, of_decide_eq_true same⟩
      · exact ⟨_, mem_append_right _ (mem_singleton_self _), rfl⟩

theorem of_mem_missingInfos (member : info ∈ missingInfos target infos) :
    info ∈ infos ∧ info.digest ∉ target := by
  simp only [missingInfos, missingDigests, mem_map, mem_filter, decide_eq_true_eq] at member
  obtain ⟨entry, ⟨inside, -, missing⟩, rfl⟩ := member
  obtain ⟨same, asked⟩ := of_mem_backMap inside
  exact ⟨asked, same ▸ missing⟩

theorem mem_or_missing (member : info ∈ infos) :
    info.digest ∈ target ∨ ∃ other ∈ missingInfos target infos, other.digest = info.digest := by
  by_cases here : info.digest ∈ target
  · exact .inl here
  · obtain ⟨entry, inside, same⟩ := exists_mem_backMap member
    refine .inr ⟨entry.2, ?_, (of_mem_backMap inside).1 ▸ same⟩
    simp only [missingInfos, missingDigests, mem_map, mem_filter, decide_eq_true_eq]
    exact ⟨entry, ⟨inside, ⟨entry, inside, rfl⟩, same ▸ here⟩, rfl⟩

/-! ## The closure of objects and of stores -/

/-- The requested objects with their full closure. -/
inductive Needed (formats : Formats Hash) (requests : List (ObjectInfo Hash)) :
    ObjectInfo Hash → Prop where
  | request {info : ObjectInfo Hash} (member : info ∈ requests) : Needed formats requests info
  | entry {tree info : ObjectInfo Hash} (above : Needed formats requests tree)
    (isTree : tree.type = .tree) (member : info ∈ entries formats tree.digest) :
    Needed formats requests info

/-- The objects that are found from the requested ones through the trees that the target misses and
the source has. -/
inductive Visited (formats : Formats Hash) (source target : Store Hash)
    (requests : List (ObjectInfo Hash)) : ObjectInfo Hash → Prop where
  | request {info : ObjectInfo Hash} (member : info ∈ requests) :
    Visited formats source target requests info
  | entry {tree info : ObjectInfo Hash} (above : Visited formats source target requests tree)
    (isTree : tree.type = .tree) (missing : tree.digest ∉ target) (stored : tree.digest ∈ source)
    (member : info ∈ entries formats tree.digest) : Visited formats source target requests info

/-- A store has all entries of the tree with a digest. -/
def Covered (formats : Formats Hash) (store : Store Hash) (digest : ArtifactDigest Hash) : Prop :=
  ∀ info ∈ entries formats digest, info.digest ∈ store

/-- Each stored tree has its full closure stored. Which digests count as trees is left open: in the
native protocol a digest says so, in the compatible one it does not. -/
def Closed (formats : Formats Hash) (trees : ArtifactDigest Hash → Prop) (store : Store Hash) : Prop :=
  ∀ digest ∈ store, trees digest → Covered formats store digest

/-- The stores are such that nothing is left out. -/
structure Proper (formats : Formats Hash)
    (splits : ArtifactDigest Hash → List (ArtifactDigest Hash) → Prop)
    (trees : ArtifactDigest Hash → Prop) (source target : Store Hash)
    (requests : List (ObjectInfo Hash)) : Prop where
  needed : ∀ info, Needed formats requests info → info.type = .tree → trees info.digest
  readable : ∀ info, Visited formats source target requests info → info.type = .tree →
    info.digest ∉ target → info.digest ∈ source →
    readsTree formats source info.digest = true ∨ Covered formats target info.digest
  apart : ∀ info, Visited formats source target requests info → info.type ≠ .tree →
    trees info.digest → Covered formats target info.digest
  chunks : ∀ digest chunks, splits digest chunks → ∀ chunk ∈ chunks, trees chunk →
    Covered formats target chunk

section
omit [DecidableEq Hash]

theorem Visited.needed (visited : Visited formats source target requests info) :
    Needed formats requests info := by
  induction visited with
  | request member => exact .request member
  | entry _ isTree _ _ member above => exact .entry above isTree member

variable {store : Store Hash}

theorem Covered.mono (larger : store ⊆ more) (covered : Covered formats store digest) :
    Covered formats more digest := fun info member => larger (covered info member)

theorem Closed.needed (closed : Closed formats trees store)
    (typed : ∀ info, Needed formats requests info → info.type = .tree → trees info.digest)
    (stored : ∀ info ∈ requests, info.digest ∈ store) (needed : Needed formats requests info) :
    info.digest ∈ store := by
  induction needed with
  | request member => exact stored _ member
  | entry above isTree member available =>
    exact closed _ available (typed _ above isTree) _ member

end

/-! ## The invariant -/

/-- A digest that may get into a store in passing, as a link or as a chunk. -/
def Foreign (formats : Formats Hash) (trees : ArtifactDigest Hash → Prop) (target : Store Hash)
    (digest : ArtifactDigest Hash) : Prop :=
  trees digest → Covered formats target digest

/-- An object that the synchronisation may come across. -/
def Relevant (formats : Formats Hash) (source target : Store Hash)
    (requests : List (ObjectInfo Hash)) (info : ObjectInfo Hash) : Prop :=
  Visited formats source target requests info ∨ info.digest ∈ target

/-- What is known of the stores on the way. -/
structure Stores (formats : Formats Hash) (trees : ArtifactDigest Hash → Prop)
    (source target sourceNow targetNow : Store Hash) : Prop where
  sources : source ⊆ sourceNow
  targets : target ⊆ targetNow
  foreign : ∀ digest ∈ sourceNow, digest ∈ source ∨ Foreign formats trees target digest
  origin : ∀ digest ∈ targetNow, digest ∈ target ∨ digest ∈ sourceNow
  closed : Closed formats trees targetNow

/-- The entries of a tree are as wanted, as far as the source had the tree at the start. -/
def Prepared (formats : Formats Hash) (source target : Store Hash) (wanted : ObjectInfo Hash → Prop)
    (tree : ObjectInfo Hash) : Prop :=
  tree.type = .tree → tree.digest ∈ source →
    ∀ info ∈ entries formats tree.digest, wanted info ∨ info.digest ∈ target

/-- What is known of the local variables of an activation. -/
structure CallSound (formats : Formats Hash) (source target : Store Hash)
    (requests : List (ObjectInfo Hash)) (targetNow : Store Hash) (call : Call Hash) : Prop where
  relevant : ∀ info ∈ call.artifactsInfo, Relevant formats source target requests info
  missing : ∀ info ∈ call.missing, info ∈ call.artifactsInfo ∧ info.digest ∉ target
  found : ∀ info ∈ call.artifactsInfo, info.digest ∈ targetNow ∨
    ∃ other ∈ call.missing, other.digest = info.digest

/-- The activations that wait, and what the innermost one provides when it succeeds. -/
def Waiting (formats : Formats Hash) (source target : Store Hash)
    (requests : List (ObjectInfo Hash)) (targetNow : Store Hash) :
    (ObjectInfo Hash → Prop) → List (Call Hash) → Prop
  | provided, [] => ∀ info ∈ requests, provided info
  | provided, call :: callers =>
    CallSound formats source target requests targetNow call ∧
    (∀ info ∈ call.missing, Prepared formats source target provided info) ∧
    Waiting formats source target requests targetNow
      (fun info => info ∈ call.artifactsInfo ∨ info.digest ∈ targetNow) callers

/-- What is known of a task that reads a tree. -/
inductive ReadSound (formats : Formats Hash) (trees : ArtifactDigest Hash → Prop)
    (source target : Store Hash) (requests : List (ObjectInfo Hash)) : ReadTask Hash → Prop where
  | read (info : ObjectInfo Hash) : ReadSound formats trees source target requests (.read info)
  | link {info : ObjectInfo Hash} {links : List (ArtifactDigest Hash)}
    {result : Option (List (Str × ObjectInfo Hash))}
    (foreign : ∀ link ∈ links, Foreign formats trees target link)
    (relevant : ∀ infos, result = some infos →
      ∀ entry ∈ infos.map snd, Relevant formats source target requests entry)
    (prepared : ∀ infos, result = some infos →
      Prepared formats source target (· ∈ infos.map snd) info) :
    ReadSound formats trees source target requests (.link info links result)

/-- What is known of a task that transfers an object. -/
inductive TransferSound (formats : Formats Hash) (trees : ArtifactDigest Hash → Prop)
    (target sourceNow : Store Hash) : Transfer Hash → Prop where
  | fetch (info : ObjectInfo Hash) : TransferSound formats trees target sourceNow (.fetch info)
  | split (info : ObjectInfo Hash) : TransferSound formats trees target sourceNow (.split info)
  | chunks {info : ObjectInfo Hash} {chunks : List (ArtifactDigest Hash)}
    (readable : info.digest ∈ sourceNow)
    (foreign : ∀ chunk ∈ chunks, Foreign formats trees target chunk) :
    TransferSound formats trees target sourceNow (.chunks info chunks)
  | upload {info : ObjectInfo Hash} {chunks pending : List (ArtifactDigest Hash)} {success : Bool}
    (readable : info.digest ∈ sourceNow)
    (foreign : ∀ chunk ∈ pending, Foreign formats trees target chunk ∧ chunk ∈ sourceNow) :
    TransferSound formats trees target sourceNow (.upload info chunks pending success)
  | splice {info : ObjectInfo Hash} {chunks : List (ArtifactDigest Hash)}
    (readable : info.digest ∈ sourceNow) :
    TransferSound formats trees target sourceNow (.splice info chunks)

/-- What is known of the innermost activation. -/
inductive PhaseSound (formats : Formats Hash) (trees : ArtifactDigest Hash → Prop)
    (source target : Store Hash) (requests : List (ObjectInfo Hash)) (sourceNow targetNow : Store Hash)
    (callers : List (Call Hash)) : Phase Hash → Prop where
  | called {infos : List (ObjectInfo Hash)}
    (relevant : ∀ info ∈ infos, Relevant formats source target requests info)
    (waiting : Waiting formats source target requests targetNow (· ∈ infos) callers) :
    PhaseSound formats trees source target requests sourceNow targetNow callers (.called infos)
  | reading {call : Call Hash} {tasks : List (ReadTask Hash)} {prerequisites : List (ObjectInfo Hash)}
    {failure : Bool} (sound : CallSound formats source target requests targetNow call)
    (waiting : Waiting formats source target requests targetNow
      (fun info => info ∈ call.artifactsInfo ∨ info.digest ∈ targetNow) callers)
    (relevant : ∀ info ∈ prerequisites, Relevant formats source target requests info)
    (tasksSound : ∀ task ∈ tasks, ReadSound formats trees source target requests task ∧
      task.info ∈ call.missing ∧ task.info.type = .tree)
    (read : ∀ info ∈ call.missing, info.type = .tree → failure = true ∨
      (∃ task ∈ tasks, task.info = info) ∨ Prepared formats source target (· ∈ prerequisites) info) :
    PhaseSound formats trees source target requests sourceNow targetNow callers
      (.reading call tasks prerequisites failure)
  | transferring {call : Call Hash} {tasks : List (Transfer Hash)} {failure : Bool}
    (sound : CallSound formats source target requests targetNow call)
    (waiting : Waiting formats source target requests targetNow
      (fun info => info ∈ call.artifactsInfo ∨ info.digest ∈ targetNow) callers)
    (ready : ∀ info ∈ call.missing, Prepared formats source target (·.digest ∈ targetNow) info)
    (tasksSound : ∀ task ∈ tasks, TransferSound formats trees target sourceNow task ∧
      task.info ∈ call.missing)
    (transferred : ∀ info ∈ call.missing, failure = true ∨ (∃ task ∈ tasks, task.info = info) ∨
      info.digest ∈ targetNow) :
    PhaseSound formats trees source target requests sourceNow targetNow callers
      (.transferring call tasks failure)
  | succeeded (waiting : Waiting formats source target requests targetNow (·.digest ∈ targetNow)
      callers) :
    PhaseSound formats trees source target requests sourceNow targetNow callers (.returned true)
  | failed : PhaseSound formats trees source target requests sourceNow targetNow callers (.returned false)

/-- What is known of a state. -/
structure Invariant (formats : Formats Hash) (trees : ArtifactDigest Hash → Prop)
    (source target : Store Hash) (requests : List (ObjectInfo Hash)) (state : State Hash) : Prop where
  stores : Stores formats trees source target state.source state.target
  done : ∀ info ∈ state.done, info.digest ∈ state.target
  phase : PhaseSound formats trees source target requests state.source state.target state.callers
    state.phase
/-! ## Growing stores -/

section
omit [DecidableEq Hash]

theorem CallSound.mono (larger : targetNow ⊆ more)
    (sound : CallSound formats source target requests targetNow call) :
    CallSound formats source target requests more call where
  relevant := sound.relevant
  missing := sound.missing
  found := fun info member => (sound.found info member).imp_left fun here => larger here

theorem Prepared.mono {wanted other : ObjectInfo Hash → Prop}
    (provides : ∀ info, wanted info → other info)
    (prepared : Prepared formats source target wanted tree) :
    Prepared formats source target other tree :=
  fun isTree stored info member => (prepared isTree stored info member).imp_left (provides info)

theorem Waiting.mono {provided other : ObjectInfo Hash → Prop} (larger : targetNow ⊆ more)
    (provides : ∀ info, provided info → other info)
    (waiting : Waiting formats source target requests targetNow provided callers) :
    Waiting formats source target requests more other callers := by
  induction callers generalizing provided other with
  | nil => exact fun info member => provides info (waiting info member)
  | cons call callers step =>
    obtain ⟨sound, prepared, rest⟩ := waiting
    refine ⟨sound.mono larger, fun info member => (prepared info member).mono provides, ?_⟩
    exact step (fun info either => either.imp_right fun here => larger here) rest

theorem TransferSound.mono (larger : sourceNow ⊆ more)
    (sound : TransferSound formats trees target sourceNow task) :
    TransferSound formats trees target more task := by
  cases sound with
  | fetch info => exact .fetch info
  | split info => exact .split info
  | chunks readable foreign => exact .chunks (larger readable) foreign
  | upload readable foreign =>
    exact .upload (larger readable) fun chunk member =>
      ⟨(foreign chunk member).1, larger (foreign chunk member).2⟩
  | splice readable => exact .splice (larger readable)

theorem foreign_of_mem (closed : Closed formats trees target) (member : digest ∈ target) :
    Foreign formats trees target digest := closed digest member

theorem stores_start (closed : Closed formats trees target) :
    Stores formats trees source target source target where
  sources := List.Subset.refl _
  targets := List.Subset.refl _
  foreign := fun _ member => .inl member
  origin := fun _ member => .inl member
  closed := closed

end

namespace Stores

variable {sourceNow targetNow : Store Hash}
  (stores : Stores formats trees source target sourceNow targetNow)

include stores

section
omit [DecidableEq Hash]

theorem pass {digests : List (ArtifactDigest Hash)}
    (foreign : ∀ digest ∈ digests, Foreign formats trees target digest) :
    Stores formats trees source target (digests ++ sourceNow) targetNow where
  sources := fun _ member => mem_append_right _ (stores.sources member)
  targets := stores.targets
  foreign := by
    intro digest member
    cases mem_append.mp member with
    | inl new => exact .inr (foreign digest new)
    | inr old => exact stores.foreign digest old
  origin := fun digest member =>
    (stores.origin digest member).imp_right (mem_append_right _)
  closed := stores.closed

theorem store (readable : digest ∈ sourceNow)
    (covered : trees digest → Covered formats targetNow digest) :
    Stores formats trees source target sourceNow (digest :: targetNow) where
  sources := stores.sources
  targets := fun _ member => mem_cons_of_mem _ (stores.targets member)
  foreign := stores.foreign
  origin := by
    intro other member
    cases mem_cons.mp member with
    | inl same => exact .inr (same ▸ readable)
    | inr old => exact stores.origin other old
  closed := by
    intro other member isTree
    have before : Covered formats targetNow other := by
      cases mem_cons.mp member with
      | inl same => exact same ▸ covered (same ▸ isTree)
      | inr old => exact stores.closed other old isTree
    exact before.mono (List.subset_cons_self _ _)

theorem foreign_covered (foreign : Foreign formats trees target digest) (isTree : trees digest) :
    Covered formats targetNow digest := (foreign isTree).mono stores.targets

end

end Stores

/-! ## The steps -/

section Steps

variable (proper : Proper formats splits trees source target requests)

include proper

theorem entry_relevant (stores : Stores formats trees source target sourceNow targetNow)
    (visited : Visited formats source target requests tree) (isTree : tree.type = .tree)
    (missing : tree.digest ∉ target) (readable : tree.digest ∈ sourceNow)
    (member : info ∈ entries formats tree.digest) : Relevant formats source target requests info := by
  cases stores.foreign _ readable with
  | inl stored => exact .inl (.entry visited isTree missing stored member)
  | inr foreign => exact .inr (foreign (proper.needed _ visited.needed isTree) info member)

theorem relevant_foreign (closed : Closed formats trees target)
    (relevant : Relevant formats source target requests info) (noTree : info.type ≠ .tree) :
    Foreign formats trees target info.digest := by
  cases relevant with
  | inl visited => exact proper.apart info visited noTree
  | inr available => exact foreign_of_mem closed available

theorem read_sound (closed : Closed formats trees target)
    (stores : Stores formats trees source target sourceNow targetNow)
    (visited : Visited formats source target requests tree) (isTree : tree.type = .tree)
    (missing : tree.digest ∉ target) : ReadSound formats trees source target requests
      (.link tree (formats.symlinkBlobs sourceNow tree.digest)
        (formats.readDirectTreeEntries sourceNow tree.digest)) := by
  refine .link ?_ ?_ ?_
  · intro link member
    obtain ⟨reads, info, inside, isLink, rfl⟩ := symlink_mem_entries member
    have relevant := entry_relevant proper stores visited isTree missing
      (stored_of_reads reads) inside
    exact relevant_foreign proper closed relevant (by simp [isLink])
  · intro infos result info member
    obtain ⟨inside, reads⟩ := of_mem_read result member
    exact entry_relevant proper stores visited isTree missing (stored_of_reads reads) inside
  · intro infos result _ stored info member
    cases proper.readable tree visited isTree missing stored with
    | inl reads =>
      exact .inl (mem_of_reads (readsTree_mono stores.sources reads) result member)
    | inr covered => exact .inr (covered info member)

theorem missing_covered (stores : Stores formats trees source target sourceNow targetNow)
    (visited : Visited formats source target requests info)
    (ready : Prepared formats source target (·.digest ∈ targetNow) info)
    (readable : info.digest ∈ sourceNow) (tree : trees info.digest) :
    Covered formats targetNow info.digest := by
  by_cases isTree : info.type = .tree
  · cases stores.foreign _ readable with
    | inl stored =>
      intro entry member
      cases ready isTree stored entry member with
      | inl here => exact here
      | inr available => exact stores.targets available
    | inr foreign => exact stores.foreign_covered foreign tree
  · exact stores.foreign_covered (proper.apart info visited isTree) tree

theorem transfer_step {report : Option Bool}
    (stores : Stores formats trees source target sourceNow targetNow)
    (visited : Visited formats source target requests task.info)
    (ready : Prepared formats source target (·.digest ∈ targetNow) task.info)
    (sound : TransferSound formats trees target sourceNow task)
    (step : task.Step splits sourceNow targetNow sourceNext targetNext report left) :
    Stores formats trees source target sourceNext targetNext ∧ sourceNow ⊆ sourceNext ∧
      targetNow ⊆ targetNext ∧
      (∀ rest ∈ left, TransferSound formats trees target sourceNext rest ∧ rest.info = task.info) ∧
      (report = some false ∨ (∃ rest, left = some rest) ∨ task.info.digest ∈ targetNext) := by
  have same : ∀ store : Store Hash, store ⊆ store := List.Subset.refl
  have goesOn : ∀ {rest}, TransferSound formats trees target sourceNow rest →
      rest.info = task.info → ∀ other ∈ some rest,
        TransferSound formats trees target sourceNow other ∧ other.info = task.info := by
    intro rest fine named other member
    cases member
    exact ⟨fine, named⟩
  cases step with
  | fetch info confirmed readable =>
    have covered := missing_covered proper stores visited ready readable
    exact ⟨stores.store readable covered, same _, List.subset_cons_self _ _, by simp,
      .inr (.inr mem_cons_self)⟩
  | fetchFails info => exact ⟨stores, same _, same _, by simp, .inl rfl⟩
  | split info chunks readable possible =>
    have foreign := proper.chunks _ _ possible
    refine ⟨stores.pass foreign, List.subset_append_right _ _, same _, ?_, .inr (.inl ⟨_, rfl⟩)⟩
    intro rest member
    cases member
    exact ⟨.chunks (mem_append_right _ readable) foreign, rfl⟩
  | splitFails info => exact ⟨stores, same _, same _, goesOn (.fetch _) rfl, .inr (.inl ⟨_, rfl⟩)⟩
  | chunks info chunks =>
    cases sound with
    | chunks readable foreign =>
      refine ⟨stores, same _, same _, goesOn (.upload readable ?_) rfl, .inr (.inl ⟨_, rfl⟩)⟩
      intro chunk member
      simp only [missingDigests, mem_filter, List.mem_dedup, decide_eq_true_eq] at member
      exact ⟨foreign chunk member.1.1, member.2⟩
  | upload info chunks before after chunk success =>
    cases sound with
    | upload readable foreign =>
      obtain ⟨passing, stored⟩ := foreign chunk (by simp)
      refine ⟨stores.store stored (stores.foreign_covered passing), same _,
        List.subset_cons_self _ _, goesOn (.upload readable fun other member => ?_) rfl,
        .inr (.inl ⟨_, rfl⟩)⟩
      exact foreign other (by simp only [mem_append, mem_cons] at member ⊢; tauto)
  | uploadFails info chunks before after chunk success =>
    cases sound with
    | upload readable foreign =>
      refine ⟨stores, same _, same _, goesOn (.upload readable fun other member => ?_) rfl,
        .inr (.inl ⟨_, rfl⟩)⟩
      exact foreign other (by simp only [mem_append, mem_cons] at member ⊢; tauto)
  | uploaded info chunks =>
    cases sound with
    | upload readable _ =>
      exact ⟨stores, same _, same _, goesOn (.splice readable) rfl, .inr (.inl ⟨_, rfl⟩)⟩
  | notUploaded info chunks => exact ⟨stores, same _, same _, by simp, .inl rfl⟩
  | splice info chunks =>
    cases sound with
    | splice readable =>
      have covered := missing_covered proper stores visited ready readable
      exact ⟨stores.store readable covered, same _, List.subset_cons_self _ _, by simp,
        .inr (.inr mem_cons_self)⟩
  | spliceFails info chunks =>
    exact ⟨stores, same _, same _, goesOn (.fetch _) rfl, .inr (.inl ⟨_, rfl⟩)⟩

theorem read_step {task : ReadTask Hash} {left : Option (ReadTask Hash)}
    (closed : Closed formats trees target)
    (stores : Stores formats trees source target sourceNow targetNow)
    (visited : Visited formats source target requests task.info) (isTree : task.info.type = .tree)
    (missing : task.info.digest ∉ target)
    (sound : ReadSound formats trees source target requests task)
    (step : task.Step formats sourceNow sourceNext report left) :
    Stores formats trees source target sourceNext targetNow ∧
      (∀ rest ∈ left, ReadSound formats trees source target requests rest ∧ rest.info = task.info) ∧
      (∀ infos, report = some (some infos) →
        ∀ info ∈ infos, Relevant formats source target requests info) ∧
      (report = some none ∨ (∃ rest, left = some rest) ∨ ∃ infos, report = some (some infos) ∧
        Prepared formats source target (· ∈ infos) task.info) := by
  cases step with
  | read tree =>
    refine ⟨stores, ?_, by simp, .inr (.inl ⟨_, rfl⟩)⟩
    intro rest member
    cases member
    exact ⟨read_sound proper closed stores visited isTree missing, rfl⟩
  | link tree links stored result among =>
    cases sound with
    | link foreign relevant prepared =>
      refine ⟨stores.pass fun link member => foreign link (among member), by simp, ?_, ?_⟩
      · intro infos reported
        cases result with
        | none => simp at reported
        | some entries =>
          simp only [map_some, some.injEq] at reported
          exact reported ▸ relevant entries rfl
      · cases result with
        | none => exact .inl rfl
        | some entries => exact .inr (.inr ⟨_, rfl, prepared entries rfl⟩)

section
omit [DecidableEq Hash] proper

theorem mem_tasks {Task : Type} {before after : List Task} (task : Task) {other : Task}
    {left : Option Task} (member : other ∈ before ++ left.toList ++ after) :
    other ∈ before ++ task :: after ∨ other ∈ left := by
  simp only [mem_append, mem_cons, Option.mem_toList] at member ⊢
  tauto

theorem mem_or_task {Task : Type} {before after : List Task} {task other : Task}
    (left : Option Task) (member : other ∈ before ++ task :: after) :
    other = task ∨ other ∈ before ++ left.toList ++ after := by
  simp only [mem_append, mem_cons] at member ⊢
  tauto

theorem missing_visited (sound : CallSound formats source target requests targetNow call)
    (member : info ∈ call.missing) :
    Visited formats source target requests info ∧ info.digest ∉ target := by
  obtain ⟨asked, missing⟩ := sound.missing info member
  exact ⟨(sound.relevant info asked).resolve_right missing, missing⟩

end

omit proper in
theorem call_invariant {artifactsInfo : List (ObjectInfo Hash)}
    (invariant : Invariant formats trees source target requests state)
    (phase : state.phase = .called infos)
    (selected : ∀ info, info ∈ artifactsInfo ↔ info ∈ infos ∧ info ∉ state.done) :
    PhaseSound formats trees source target requests state.source state.target state.callers
      (.reading ⟨artifactsInfo, missingInfos state.target artifactsInfo⟩
        (readTasks (missingInfos state.target artifactsInfo)) [] false) := by
  have sound := invariant.phase
  rw [phase] at sound
  cases sound with
  | called relevant waiting =>
    refine .reading ⟨?_, ?_, fun info member => mem_or_missing member⟩ ?_ (by simp) ?_ ?_
    · exact fun info member => relevant info ((selected info).mp member).1
    · intro info member
      obtain ⟨asked, missing⟩ := of_mem_missingInfos member
      exact ⟨asked, fun here => missing (invariant.stores.targets here)⟩
    · refine waiting.mono (List.Subset.refl _) fun info member => ?_
      by_cases isDone : info ∈ state.done
      · exact .inr (invariant.done info isDone)
      · exact .inl ((selected info).mpr ⟨member, isDone⟩)
    · intro task member
      simp only [readTasks, mem_map, mem_filter, decide_eq_true_eq] at member
      obtain ⟨info, ⟨missing, isTree⟩, rfl⟩ := member
      exact ⟨.read info, missing, isTree⟩
    · intro info missing isTree
      refine .inr (.inl ⟨.read info, ?_, rfl⟩)
      simp only [readTasks, mem_map, mem_filter, decide_eq_true_eq]
      exact ⟨info, ⟨missing, isTree⟩, rfl⟩

theorem read_invariant {before after : List (ReadTask Hash)} {task : ReadTask Hash}
    {prerequisites : List (ObjectInfo Hash)} {failure : Bool} {left : Option (ReadTask Hash)}
    (closed : Closed formats trees target)
    (stores : Stores formats trees source target sourceNow targetNow)
    (phase : PhaseSound formats trees source target requests sourceNow targetNow callers
      (.reading call (before ++ task :: after) prerequisites failure))
    (step : task.Step formats sourceNow sourceNext report left) :
    Stores formats trees source target sourceNext targetNow ∧
      PhaseSound formats trees source target requests sourceNext targetNow callers
        (.reading call (before ++ left.toList ++ after) (addReport prerequisites report)
          (failure || report = some none)) := by
  cases phase with
  | reading sound waiting relevant tasksSound read =>
    obtain ⟨taskSound, missing, isTree⟩ := tasksSound task (by simp)
    obtain ⟨visited, absent⟩ := missing_visited sound missing
    obtain ⟨storesNext, leftSound, reported, progress⟩ :=
      read_step proper closed stores visited isTree absent taskSound step
    have kept : ∀ info ∈ prerequisites, info ∈ addReport prerequisites report := by
      intro info member
      unfold addReport
      split
      · exact mem_append_left _ member
      · exact member
    refine ⟨storesNext, .reading sound waiting ?_ ?_ ?_⟩
    · intro info member
      unfold addReport at member
      split at member
      · next infos =>
        cases mem_append.mp member with
        | inl old => exact relevant info old
        | inr new => exact reported infos rfl info new
      · exact relevant info member
    · intro other member
      cases mem_tasks task member with
      | inl old => exact tasksSound other old
      | inr rest =>
        obtain ⟨fine, named⟩ := leftSound other rest
        exact ⟨fine, named ▸ missing, named ▸ isTree⟩
    · intro info inMissing infoTree
      have fromTask : task.info = info → (failure || decide (report = some none)) = true ∨
          (∃ other ∈ before ++ left.toList ++ after, other.info = info) ∨
          Prepared formats source target (· ∈ addReport prerequisites report) info := by
        rintro rfl
        rcases progress with failed | ⟨rest, goesOn⟩ | ⟨infos, ended, prepared⟩
        · exact .inl (by simp [failed])
        · refine .inr (.inl ⟨rest, by simp [goesOn], (leftSound rest (by simp [goesOn])).2⟩)
        · refine .inr (.inr (prepared.mono fun entry member => ?_))
          rw [ended]
          exact mem_append_right _ member
      rcases read info inMissing infoTree with failed | ⟨other, member, named⟩ | prepared
      · exact .inl (by simp [failed])
      · cases mem_or_task left member with
        | inl same => exact fromTask (same ▸ named)
        | inr rest => exact .inr (.inl ⟨other, rest, named⟩)
      · exact .inr (.inr (prepared.mono kept))

theorem transfer_invariant {before after : List (Transfer Hash)} {failure : Bool}
    {report : Option Bool} (stores : Stores formats trees source target sourceNow targetNow)
    (phase : PhaseSound formats trees source target requests sourceNow targetNow callers
      (.transferring call (before ++ task :: after) failure))
    (step : task.Step splits sourceNow targetNow sourceNext targetNext report left) :
    Stores formats trees source target sourceNext targetNext ∧ targetNow ⊆ targetNext ∧
      PhaseSound formats trees source target requests sourceNext targetNext callers
        (.transferring call (before ++ left.toList ++ after) (failure || report = some false)) := by
  cases phase with
  | transferring sound waiting ready tasksSound transferred =>
    obtain ⟨taskSound, missing⟩ := tasksSound task (by simp)
    obtain ⟨visited, -⟩ := missing_visited sound missing
    obtain ⟨storesNext, sources, targets, leftSound, progress⟩ :=
      transfer_step proper stores visited (ready _ missing) taskSound step
    refine ⟨storesNext, targets, .transferring (sound.mono targets) ?_ ?_ ?_ ?_⟩
    · exact waiting.mono targets fun info either => either.imp_right fun here => targets here
    · exact fun info member => (ready info member).mono fun entry here => targets here
    · intro other member
      cases mem_tasks task member with
      | inl old => exact ⟨(tasksSound other old).1.mono sources, (tasksSound other old).2⟩
      | inr rest =>
        obtain ⟨fine, named⟩ := leftSound other rest
        exact ⟨fine, named ▸ missing⟩
    · intro info inMissing
      have fromTask : task.info = info → (failure || decide (report = some false)) = true ∨
          (∃ other ∈ before ++ left.toList ++ after, other.info = info) ∨
          info.digest ∈ targetNext := by
        rintro rfl
        rcases progress with failed | ⟨rest, goesOn⟩ | here
        · exact .inl (by simp [failed])
        · exact .inr (.inl ⟨rest, by simp [goesOn], (leftSound rest (by simp [goesOn])).2⟩)
        · exact .inr (.inr here)
      rcases transferred info inMissing with failed | ⟨other, member, named⟩ | here
      · exact .inl (by simp [failed])
      · cases mem_or_task left member with
        | inl same => exact fromTask (same ▸ named)
        | inr rest => exact .inr (.inl ⟨other, rest, named⟩)
      · exact .inr (.inr (targets here))

theorem step_invariant (closed : Closed formats trees target)
    (invariant : Invariant formats trees source target requests state)
    (step : Step formats splits splitting state next) :
    Invariant formats trees source target requests next := by
  cases step with
  | nothing sourceNow targetNow done infos callers none =>
    refine ⟨invariant.stores, invariant.done, ?_⟩
    cases invariant.phase with
    | called relevant waiting =>
      exact .succeeded (waiting.mono (List.Subset.refl _) fun info member =>
        invariant.done info (none info member))
  | call sourceNow targetNow done infos artifactsInfo callers distinct selected some =>
    have phase := call_invariant invariant rfl selected
    exact ⟨invariant.stores, invariant.done, phase⟩
  | read sourceNow sourceNext targetNow done prerequisites callers call before after task failure
      report left step =>
    obtain ⟨stores, phase⟩ := read_invariant proper closed invariant.stores invariant.phase step
    exact ⟨stores, invariant.done, phase⟩
  | readFailed => exact ⟨invariant.stores, invariant.done, .failed⟩
  | recurse sourceNow targetNow done prerequisites callers call =>
    refine ⟨invariant.stores, invariant.done, ?_⟩
    cases invariant.phase with
    | reading sound waiting relevant tasksSound read =>
      refine .called relevant ⟨sound, fun info member => ?_, waiting⟩
      by_cases isTree : info.type = .tree
      · rcases read info member isTree with failed | ⟨task, running, -⟩ | prepared
        · cases failed
        · cases running
        · exact prepared
      · exact fun tree => absurd tree isTree
  | resume sourceNow targetNow done callers call =>
    refine ⟨invariant.stores, invariant.done, ?_⟩
    cases invariant.phase with
    | succeeded waiting =>
      obtain ⟨sound, prepared, rest⟩ := waiting
      refine .transferring sound rest prepared (fun task member => ?_) fun info member => ?_
      · obtain ⟨info, missing, rfl⟩ := mem_map.mp member
        unfold transferTask
        split
        · exact ⟨.split info, missing⟩
        · exact ⟨.fetch info, missing⟩
      · refine .inr (.inl ⟨_, mem_map.mpr ⟨info, member, rfl⟩, ?_⟩)
        unfold transferTask
        split <;> rfl
  | abort => exact ⟨invariant.stores, invariant.done, .failed⟩
  | transfer sourceNow sourceNext targetNow targetNext done callers call before after task failure
      report left step =>
    obtain ⟨stores, targets, phase⟩ :=
      transfer_invariant proper invariant.stores invariant.phase step
    exact ⟨stores, fun info member => targets (invariant.done info member), phase⟩
  | transferFailed => exact ⟨invariant.stores, invariant.done, .failed⟩
  | transferred sourceNow targetNow done callers call =>
    cases invariant.phase with
    | transferring sound waiting ready tasksSound transferred =>
      have available : ∀ info ∈ call.artifactsInfo, info.digest ∈ targetNow := by
        intro info member
        cases sound.found info member with
        | inl here => exact here
        | inr missing =>
          obtain ⟨other, inside, same⟩ := missing
          rcases transferred other inside with failed | ⟨task, running, -⟩ | here
          · cases failed
          · cases running
          · exact same ▸ here
      refine ⟨invariant.stores, fun info member => ?_, .succeeded ?_⟩
      · cases mem_append.mp member with
        | inl new => exact available info new
        | inr old => exact invariant.done info old
      · exact waiting.mono (List.Subset.refl _) fun info either =>
          either.elim (available info) fun here => here

omit [DecidableEq Hash] proper in
theorem start_invariant (closed : Closed formats trees target) :
    Invariant formats trees source target requests
      (parallelRetrieveToCas false source target requests) where
  stores := stores_start closed
  done := fun _ member => absurd member not_mem_nil
  phase := .called (fun _ member => .inl (.request member)) fun _ member => member

end Steps

/-! ## Every run ends -/

/-- How many levels of trees an object has, in terms of the depth of trees. -/
def level (depth : ArtifactDigest Hash → Nat) (info : ObjectInfo Hash) : Nat :=
  if info.type = .tree then depth info.digest + 1 else 0

/-- One more than the levels of all the objects, if there are any. -/
def height (depth : ArtifactDigest Hash → Nat) (infos : List (ObjectInfo Hash)) : Nat :=
  (infos.map fun info => level depth info + 1).foldr max 0

/-- The requests that are left to a task that reads. -/
def readWork : ReadTask Hash → Nat
  | .read _ => 2
  | .link _ _ _ => 1

/-- The requests that are left to a task that transfers, once the blob has been split. -/
def transferWork : Transfer Hash → Nat
  | .fetch _ => 1
  | .split _ => 0
  | .chunks _ chunks => 4 + chunks.length
  | .upload _ _ pending _ => 3 + pending.length
  | .splice _ _ => 2

/-- The blob of a task is still to be split. -/
def unsplit : Transfer Hash → Nat
  | .split _ => 1
  | _ => 0

/-- The levels that are still to be read, then the activations that are still to return, then what
is left to the tasks. -/
def measure (depth : ArtifactDigest Hash → Nat) (state : State Hash) : Nat ×ₗ Nat ×ₗ Nat ×ₗ Nat :=
  match state.phase with
  | .called infos => toLex (height depth infos + 1, toLex (0, toLex (0, 0)))
  | .reading call tasks _ _ =>
    toLex (height depth call.artifactsInfo, toLex (1, toLex ((tasks.map readWork).sum, 0)))
  | .transferring _ tasks _ =>
    toLex (0, toLex (2 * state.callers.length + 1,
      toLex ((tasks.map unsplit).sum, (tasks.map transferWork).sum)))
  | .returned _ => toLex (0, toLex (2 * state.callers.length, toLex (0, 0)))

section
omit [DecidableEq Hash]

theorem height_le {bound : Nat} :
    height depth infos ≤ bound ↔ ∀ info ∈ infos, level depth info < bound := by
  induction infos with
  | nil => simp [height]
  | cons info infos step =>
    rw [forall_mem_cons, ← step]
    simp only [height, map_cons, List.foldr_cons]
    omega

theorem level_lt_height (member : info ∈ infos) : level depth info < height depth infos :=
  height_le.mp le_rfl info member

end

/-- The tasks that read are about trees of the activation, and what they find is lower. -/
def TaskDescends (depth : ArtifactDigest Hash → Nat) (bound : Nat) : ReadTask Hash → Prop
  | .read info => info.type = .tree ∧ level depth info < bound
  | .link _ _ result => ∀ infos, result = some infos →
    ∀ info ∈ infos.map snd, level depth info + 1 < bound

/-- The prerequisites of an activation are lower than the objects it is asked for. -/
def Descends (depth : ArtifactDigest Hash → Nat) (state : State Hash) : Prop :=
  match state.phase with
  | .reading call tasks prerequisites _ =>
    0 < height depth call.artifactsInfo ∧
    (∀ task ∈ tasks, TaskDescends depth (height depth call.artifactsInfo) task) ∧
    ∀ info ∈ prerequisites, level depth info + 1 < height depth call.artifactsInfo
  | _ => True

section Ending

variable {depth : ArtifactDigest Hash → Nat}
  (nested : ∀ digest, ∀ info ∈ entries formats digest, info.type = .tree →
    depth info.digest < depth digest)

include nested

omit [DecidableEq Hash] in
theorem level_lt (isTree : tree.type = .tree) (member : info ∈ entries formats tree.digest) :
    level depth info < level depth tree := by
  have lower := nested _ info member
  unfold level
  rw [if_pos isTree]
  split
  · next infoTree => exact Nat.succ_lt_succ (lower infoTree)
  · exact Nat.succ_pos _

theorem step_descends (descends : Descends depth state)
    (step : Step formats splits splitting state next) : Descends depth next := by
  cases step with
  | call sourceNow targetNow done infos artifactsInfo callers distinct selected some =>
    obtain ⟨info, member⟩ := List.exists_mem_of_ne_nil _ some
    refine ⟨Nat.zero_lt_of_lt (level_lt_height member : level depth info < _), ?_, by simp⟩
    intro task running
    simp only [readTasks, mem_map, mem_filter, decide_eq_true_eq] at running
    obtain ⟨tree, ⟨missing, isTree⟩, rfl⟩ := running
    exact ⟨isTree, level_lt_height (of_mem_missingInfos missing).1⟩
  | read sourceNow sourceNext targetNow done prerequisites callers call before after task failure
      report left step =>
    obtain ⟨positive, tasks, lower⟩ := descends
    have here := tasks task (by simp)
    refine ⟨positive, fun other running => ?_, fun info member => ?_⟩
    · cases mem_tasks task running with
      | inl old => exact tasks other old
      | inr rest =>
        cases step with
        | read tree =>
          cases rest
          intro infos result info member
          have below := level_lt nested here.1 (of_mem_read result member).1
          have above := here.2
          omega
        | link tree links stored result among => cases rest
    · cases step with
      | read tree => exact lower info member
      | link tree links stored result among =>
        cases result with
        | none => exact lower info member
        | some infos =>
          cases mem_append.mp member with
          | inl old => exact lower info old
          | inr new => exact here infos rfl info new
  | _ => trivial

end Ending
omit [DecidableEq Hash] in
theorem sum_tasks {Task : Type} (weight : Task → Nat) (before after : List Task) (task : Task)
    (left : Option Task) : ((before ++ left.toList ++ after).map weight).sum + weight task =
      ((before ++ task :: after).map weight).sum + (left.map weight).getD 0 := by
  cases left with
  | none => simp; omega
  | some rest => simp; omega

theorem readWork_step {task : ReadTask Hash} {left : Option (ReadTask Hash)}
    (step : task.Step formats sourceNow sourceNext report left) :
    (left.map readWork).getD 0 < readWork task := by
  cases step with
  | read => exact Nat.lt_succ_self 1
  | link => exact Nat.zero_lt_one

theorem transferWork_step {report : Option Bool}
    (step : task.Step splits sourceNow targetNow sourceNext targetNext report left) :
    (left.map unsplit).getD 0 < unsplit task ∨ (left.map unsplit).getD 0 = unsplit task ∧
        (left.map transferWork).getD 0 < transferWork task := by
  cases step with
  | split => exact .inl Nat.zero_lt_one
  | splitFails => exact .inl Nat.zero_lt_one
  | chunks info chunks =>
    refine .inr ⟨rfl, ?_⟩
    have fewer : ((missingDigests targetNow chunks.dedup).filter fun chunk =>
        chunk ∈ sourceNow).length ≤ chunks.length :=
      Nat.le_trans (List.length_filter_le _ _)
        (Nat.le_trans (List.length_filter_le _ _) (List.dedup_sublist chunks).length_le)
    simp only [map_some, getD_some, transferWork]
    omega
  | upload info chunks before after chunk success =>
    refine .inr ⟨rfl, ?_⟩
    simp only [map_some, getD_some, transferWork, length_append, length_cons]
    omega
  | uploadFails info chunks before after chunk success =>
    refine .inr ⟨rfl, ?_⟩
    simp only [map_some, getD_some, transferWork, length_append, length_cons]
    omega
  | _ => exact .inr ⟨rfl, by simp [transferWork]⟩

theorem measure_step (descends : Descends depth state)
    (step : Step formats splits splitting state next) :
    measure depth next < measure depth state := by
  cases step with
  | call sourceNow targetNow done infos artifactsInfo callers distinct selected some =>
    have lower : height depth artifactsInfo ≤ height depth infos :=
      height_le.mpr fun info member => level_lt_height ((selected info).mp member).1
    exact Lex.left _ _ (Nat.lt_succ_of_le lower)
  | nothing => exact Lex.left _ _ (Nat.succ_pos _)
  | read sourceNow sourceNext targetNow done prerequisites callers call before after task failure
      report left step =>
    have sums := sum_tasks readWork before after task left
    have less := readWork_step step
    exact Lex.right _ (Lex.right _ (Lex.left _ _ (by omega)))
  | readFailed => exact Lex.left _ _ descends.1
  | recurse sourceNow targetNow done prerequisites callers call =>
    obtain ⟨positive, -, lower⟩ := descends
    have below : height depth prerequisites ≤ height depth call.artifactsInfo - 1 :=
      height_le.mpr fun info member => by
        have := lower info member
        omega
    simp only [measure, Lex.toLex_lt_toLex]
    omega
  | resume sourceNow targetNow done callers call =>
    have fewer : 2 * callers.length + 1 < 2 * (callers.length + 1) := by omega
    exact Lex.right _ (Lex.left _ _ fewer)
  | abort sourceNow targetNow done callers call =>
    have fewer : 2 * callers.length < 2 * (callers.length + 1) := by omega
    exact Lex.right _ (Lex.left _ _ fewer)
  | transfer sourceNow sourceNext targetNow targetNext done callers call before after task failure
      report left step =>
    have splitting := sum_tasks unsplit before after task left
    have working := sum_tasks transferWork before after task left
    have less := transferWork_step step
    refine Lex.right _ (Lex.right _ ?_)
    simp only [Lex.toLex_lt_toLex]
    omega
  | transferFailed => exact Lex.right _ (Lex.left _ _ (Nat.lt_succ_self _))
  | transferred => exact Lex.right _ (Lex.left _ _ (Nat.lt_succ_self _))

theorem parallelRetrieveToCas_ends
    (nested : ∀ digest, ∀ info ∈ entries formats digest, info.type = .tree →
      depth info.digest < depth digest) :
    Ends (Step formats splits splitting) (parallelRetrieveToCas false source target requests) :=
  ends (measure depth) (show Descends depth (parallelRetrieveToCas false source target requests) from
    trivial) (fun descends => step_descends nested descends) measure_step

theorem transfer_progress (sourceNow targetNow : Store Hash) (task : Transfer Hash) :
    ∃ sourceNext targetNext report left,
      task.Step splits sourceNow targetNow sourceNext targetNext report left := by
  cases task with
  | fetch info => exact ⟨_, _, _, _, .fetchFails info⟩
  | split info => exact ⟨_, _, _, _, .splitFails info⟩
  | chunks info chunks => exact ⟨_, _, _, _, .chunks info chunks⟩
  | upload info chunks pending success =>
    cases pending with
    | nil =>
      cases success with
      | true => exact ⟨_, _, _, _, .uploaded info chunks⟩
      | false => exact ⟨_, _, _, _, .notUploaded info chunks⟩
    | cons chunk rest => exact ⟨_, _, _, _, .uploadFails info chunks [] rest chunk success⟩
  | splice info chunks => exact ⟨_, _, _, _, .spliceFails info chunks⟩

theorem returned_of_final (final : Final (Step formats splits splitting) state) :
    ∃ success, state.phase = .returned success ∧ state.callers = [] := by
  obtain ⟨sourceNow, targetNow, done, callers, phase⟩ := state
  cases phase with
  | called infos =>
    exfalso
    by_cases left : ∀ info ∈ infos, info ∈ done
    · exact final _ (.nothing _ _ _ _ _ left)
    · obtain ⟨info, member, undone⟩ : ∃ info ∈ infos, info ∉ done := by simpa using left
      have selected : ∀ other, other ∈ (infos.filter (· ∉ done)).dedup ↔
          other ∈ infos ∧ other ∉ done := by simp
      exact final _ (.call _ _ _ _ _ _ (List.nodup_dedup _) selected
        (List.ne_nil_of_mem ((selected info).mpr ⟨member, undone⟩)))
  | reading call tasks prerequisites failure =>
    exfalso
    cases tasks with
    | nil =>
      cases failure with
      | true => exact final _ (.readFailed _ _ _ _ _ _)
      | false => exact final _ (.recurse _ _ _ _ _ _)
    | cons task rest =>
      cases task with
      | read tree => exact final _ (.read _ _ _ _ _ _ _ [] rest _ _ _ _ (.read tree))
      | link tree links result =>
        exact final _ (.read _ _ _ _ _ _ _ [] rest _ _ _ _
          (.link tree links [] result (List.nil_subset _)))
  | transferring call tasks failure =>
    exfalso
    cases tasks with
    | nil =>
      cases failure with
      | true => exact final _ (.transferFailed _ _ _ _ _)
      | false => exact final _ (.transferred _ _ _ _ _)
    | cons task rest =>
      obtain ⟨_, _, _, _, step⟩ := @transfer_progress _ _ splits sourceNow targetNow task
      exact final _ (.transfer _ _ _ _ _ _ _ [] rest _ _ _ _ step)
  | returned success =>
    cases callers with
    | nil => exact ⟨success, rfl, rfl⟩
    | cons call callers =>
      exfalso
      cases success with
      | true => exact final _ (.resume _ _ _ _ _)
      | false => exact final _ (.abort _ _ _ _ _)

/-! ## The result -/

/-- Synchronising a remote store to another one that is closed ends, and keeps it closed after every
request. If it reports success, all requested objects are available with their full closure; if one
of them can be found nowhere, it reports failure. -/
theorem parallelRetrieveToCas_complete {depth : ArtifactDigest Hash → Nat}
    (nested : ∀ digest, ∀ info ∈ entries formats digest, info.type = .tree →
      depth info.digest < depth digest)
    (closed : Closed formats trees target)
    (proper : Proper formats splits trees source target requests) :
    Ends (Step formats splits splitting) (parallelRetrieveToCas false source target requests) ∧
    ∀ state, Reaches (Step formats splits splitting)
        (parallelRetrieveToCas false source target requests) state →
      Closed formats trees state.target ∧
      (Final (Step formats splits splitting) state →
        ∃ success, state.phase = .returned success ∧ state.callers = [] ∧
          (success = true → ∀ info, Needed formats requests info → info.digest ∈ state.target) ∧
          ((∃ info, Needed formats requests info ∧ info.digest ∉ state.source ∧
            info.digest ∉ target) → success = false)) := by
  refine ⟨parallelRetrieveToCas_ends nested, fun state run => ?_⟩
  have holds : Invariant formats trees source target requests state :=
    invariant (start_invariant closed) (step_invariant proper closed) run
  refine ⟨holds.stores.closed, fun final => ?_⟩
  obtain ⟨success, returned, unwound⟩ := returned_of_final final
  have complete : success = true → ∀ info, Needed formats requests info →
      info.digest ∈ state.target := by
    rintro rfl info needed
    have phase := holds.phase
    rw [returned, unwound] at phase
    cases phase with
    | succeeded waiting => exact holds.stores.closed.needed proper.needed waiting needed
  refine ⟨success, returned, unwound, complete, ?_⟩
  rintro ⟨info, needed, unreadable, missing⟩
  cases success with
  | false => rfl
  | true =>
    cases holds.stores.origin _ (complete rfl info needed) with
    | inl here => exact absurd here missing
    | inr readable => exact absurd readable unreadable
theorem proper_native (native : formats.native = true)
    (typed : ∀ info ∈ requests, info.type = .tree ↔ info.digest.isTree = true)
    (chunks : ∀ digest chunks, splits digest chunks → ∀ chunk ∈ chunks, chunk.isTree = false)
    (readable : ∀ info, Visited formats source target requests info → info.type = .tree →
      info.digest ∉ target → info.digest ∈ source →
      readsTree formats source info.digest = true ∨ Covered formats target info.digest) :
    Proper formats splits (·.isTree = true) source target requests := by
  have types : ∀ info, Needed formats requests info →
      (info.type = .tree ↔ info.digest.isTree = true) := by
    intro info needed
    cases needed with
    | request member => exact typed info member
    | entry above isTree member =>
      simp only [entries, if_pos native] at member
      split at member
      · cases member
      · simp only [List.mem_filterMap, map_eq_some_iff] at member
        obtain ⟨entry, -, type, -, rfl⟩ := member
        simp [entryInfo]
  exact {
    needed := fun info needed isTree => (types info needed).mp isTree
    readable := readable
    apart := fun info visited noTree isTree =>
      absurd ((types info visited.needed).mpr isTree) noTree
    chunks := fun digest list possible chunk member isTree => by
      simp [chunks digest list possible chunk member] at isTree }

/-! ## A tree with a symbolic link -/

/-- A git tree object with a symbolic link. -/
def linkContent : Str := lit "120000 link" ++ 0 :: replicate 20 2

/-- A git tree with a symbolic link, as the only tree. -/
def linkFormats : Formats Nat where
  native := true
  content := fun digest => if digest.isTree then linkContent else lit "file"
  gitTree := fun content =>
    if content = linkContent then some [⟨lit "link", some .symlink, 2⟩] else none
  directory := fun _ => none
  hashFile := fun _ => 0

/-- The tree. -/
def linkTree : ObjectInfo Nat := entryInfo (.tree, 1)

/-- The link in it. -/
def linkBlob : ObjectInfo Nat := entryInfo (.symlink, 2)

/-- Nothing is split. -/
def neverSplit : ArtifactDigest Nat → List (ArtifactDigest Nat) → Prop := fun _ _ => False

theorem entries_linkFormats (digest : ArtifactDigest Nat) :
    entries linkFormats digest = if digest.isTree then [linkBlob] else [] := by
  cases digest with
  | mk hash isTree => cases isTree <;> rfl

theorem link_left_out :
    Closed linkFormats (·.isTree = true) ([] : Store Nat) ∧
      Needed linkFormats [linkTree] linkBlob ∧
      ∃ state, Reaches (Step linkFormats neverSplit false)
          (parallelRetrieveToCas false [linkTree.digest] [] [linkTree]) state ∧
        state.phase = .returned true ∧ state.callers = [] ∧ linkTree.digest ∈ state.target ∧
        linkBlob.digest ∉ state.source ∧ linkBlob.digest ∉ state.target ∧
        ¬ Closed linkFormats (·.isTree = true) state.target := by
  have unread : linkFormats.readDirectTreeEntries [linkTree.digest] linkTree.digest = some [] := by
    decide
  have inside : linkBlob ∈ entries linkFormats linkTree.digest := by
    rw [entries_linkFormats]
    exact mem_singleton_self _
  let call : Call Nat := ⟨[linkTree], [linkTree]⟩
  have missing : missingInfos [] [linkTree] = [linkTree] := by decide
  have reads : Step linkFormats neverSplit false
      ⟨[linkTree.digest], [], [], [], .reading call [.read linkTree] [] false⟩
      ⟨[linkTree.digest], [], [], [], .reading call [.link linkTree [] (some [])] [] false⟩ := by
    have step := @Step.read Nat _ linkFormats neverSplit false [linkTree.digest] _ [] [] [] [] call
      [] [] _ false _ _ (.read linkTree)
    rw [unread] at step
    exact step
  refine ⟨fun _ member => absurd member not_mem_nil, .entry (.request (by simp)) rfl inside,
    ⟨[linkTree.digest], [linkTree.digest], [linkTree], [], .returned true⟩, ?_, rfl, rfl, by simp,
    by decide, by decide, fun closed => ?_⟩
  · refine .head (.call _ _ _ _ [linkTree] _ (by simp) (by simp) (by simp)) ?_
    rw [missing]
    refine .head reads ?_
    refine .head (.read _ _ _ _ _ _ call [] [] _ _ _ _ (.link linkTree [] [] _ (by simp))) ?_
    refine .head (.recurse _ _ _ _ _ _) ?_
    refine .head (.nothing _ _ _ _ _ (by simp [addReport])) ?_
    refine .head (.resume _ _ _ _ _) ?_
    refine .head (.transfer _ _ _ _ _ _ call [] [] _ _ _ _ (.fetch linkTree true (by simp))) ?_
    exact .single (.transferred _ _ _ _ _)
  · exact absurd (closed linkTree.digest (by simp) rfl linkBlob inside) (by decide)

theorem link_proper : Proper linkFormats neverSplit (·.isTree = true)
    [linkTree.digest, linkBlob.digest] [] [linkTree] := by
  refine proper_native rfl ?_ (fun _ _ possible => possible.elim) ?_
  · intro info member
    rw [mem_singleton.mp member]
    decide
  · intro info visited isTree _ _
    cases visited with
    | request member =>
      rw [mem_singleton.mp member]
      exact .inl (by decide)
    | entry _ _ _ _ member =>
      rw [entries_linkFormats] at member
      split at member
      · rw [mem_singleton.mp member] at isTree
        exact absurd isTree (by decide)
      · cases member

theorem link_synchronised :
    Ends (Step linkFormats neverSplit false)
        (parallelRetrieveToCas false [linkTree.digest, linkBlob.digest] [] [linkTree]) ∧
      ∀ state, Reaches (Step linkFormats neverSplit false)
          (parallelRetrieveToCas false [linkTree.digest, linkBlob.digest] [] [linkTree]) state →
        Final (Step linkFormats neverSplit false) state → state.phase = .returned true →
        linkTree.digest ∈ state.target ∧ linkBlob.digest ∈ state.target := by
  let depth : ArtifactDigest Nat → Nat := fun _ => 0
  have nested : ∀ digest, ∀ info ∈ entries linkFormats digest, info.type = .tree →
      depth info.digest < depth digest := by
    intro digest info member isTree
    rw [entries_linkFormats] at member
    split at member
    · rw [mem_singleton.mp member] at isTree
      exact absurd isTree (by decide)
    · cases member
  have closed : Closed linkFormats (·.isTree = true) ([] : Store Nat) :=
    fun _ member => absurd member not_mem_nil
  obtain ⟨finite, runs⟩ := parallelRetrieveToCas_complete nested closed link_proper
  refine ⟨finite, fun state run final returned => ?_⟩
  obtain ⟨success, same, -, complete, -⟩ := (runs state run).2 final
  have succeeded : success = true := by
    rw [returned] at same
    exact (Phase.returned.inj same).symm
  have request : Needed linkFormats [linkTree] linkTree := .request (by simp)
  refine ⟨complete succeeded _ request, complete succeeded _ (.entry request rfl ?_)⟩
  rw [entries_linkFormats]
  exact mem_singleton_self _

end Jst.Verif.Synchronisation
