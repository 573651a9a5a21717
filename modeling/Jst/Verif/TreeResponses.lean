import Jst.Data.Runs
import Jst.Verif.CachedResults
/-!
# Trees in responses of the execution service

In compatible mode a response names an output directory by a `Tree` message. A client maps the path
to the digest of the root of that message, and a server builds the message from a stored directory.
-/
open Jst.Execution Jst.Verif.ResultExchange

namespace Jst.Verif.TreeResponses

variable {Hash : Type} {exchange : Exchange Hash}

variable {found : List (Hash × DirectoryMessage Hash)} {contents : List Str}

/-! ## Building messages -/

section Building

variable {store : BlobStore Hash} {root : Hash}

/-- A stored directory has a subdirectory. -/
def Below (exchange : Exchange Hash) (store : BlobStore Hash) (directory sub : Hash) : Prop :=
  ∃ message, readMessage exchange store directory = some message ∧
    sub ∈ message.directories.map (·.2)

/-- A directory is stored with all directories in it, and none of them contains itself. -/
structure DirectoryDag (exchange : Exchange Hash) (store : BlobStore Hash) (root : Hash) :
    Prop where
  stored : ∀ digest, Runs.Reaches (Below exchange store) root digest →
    (readMessage exchange store digest).isSome
  acyclic : Runs.Ends (Below exchange store) root

/-- Every directory below the root is listed once. -/
def ListedOnce (exchange : Exchange Hash) (store : BlobStore Hash) (root : Hash)
    (tree : TreeMessage Hash) : Prop :=
  ∃ digests : List Hash, digests.Nodup ∧
    (∀ digest, digest ∈ digests ↔ Relation.TransGen (Below exchange store) root digest) ∧
    tree.children.map some = digests.map (readMessage exchange store)

variable [DecidableEq Hash]

/-- The loop takes directories off its stack within some number of steps, whatever was found. -/
def Drains (exchange : Exchange Hash) (store : BlobStore Hash) (stack : List Hash) : Prop :=
  ∃ bound, ∀ found, ∃ after spent, spent ≤ bound ∧ ∀ rest fuel,
    makeTreeLoop exchange store (fuel + spent) (stack ++ rest) found =
      makeTreeLoop exchange store fuel rest after

theorem Drains.append {first second : List Hash} (front : Drains exchange store first)
    (back : Drains exchange store second) : Drains exchange store (first ++ second) := by
  obtain ⟨frontBound, front⟩ := front
  obtain ⟨backBound, back⟩ := back
  refine ⟨frontBound + backBound, fun found => ?_⟩
  obtain ⟨middle, spent, small, runs⟩ := front found
  obtain ⟨after, more, less, goesOn⟩ := back middle
  refine ⟨after, more + spent, by omega, fun rest fuel => ?_⟩
  rw [← Nat.add_assoc, append_assoc, runs, goesOn]

variable {rest stack : List Hash}

theorem drains_of_each
    (each : ∀ digest ∈ stack, Drains exchange store [digest]) : Drains exchange store stack := by
  induction stack with
  | nil => exact ⟨0, fun found => ⟨found, 0, le_refl 0, fun _ _ => rfl⟩⟩
  | cons digest rest step =>
    have later := step (forall_mem_cons.mp each).2
    exact (each digest mem_cons_self).append later

variable {message : DirectoryMessage Hash}

theorem Drains.visit {digest : Hash} (read : readMessage exchange store digest = some message)
    (inner : Drains exchange store (message.directories.map (·.2)).reverse) :
    Drains exchange store [digest] := by
  obtain ⟨bound, inner⟩ := inner
  refine ⟨bound + 1, fun found => ?_⟩
  by_cases known : found.any (·.1 = digest) = true
  · refine ⟨found, 1, by omega, fun rest fuel => ?_⟩
    rw [singleton_append, makeTreeLoop, if_pos known]
  · obtain ⟨after, spent, small, runs⟩ := inner (found ++ [(digest, message)])
    refine ⟨after, spent + 1, by omega, fun rest fuel => ?_⟩
    rw [← Nat.add_assoc, singleton_append, makeTreeLoop, if_neg known, read]
    exact runs rest fuel

theorem DirectoryDag.drains (dag : DirectoryDag exchange store root) :
    Drains exchange store [root] := by
  obtain ⟨stored, acyclic⟩ := dag
  induction acyclic with
  | intro current _ step =>
    obtain ⟨message, read⟩ := isSome_iff_exists.mp (stored current .refl)
    refine Drains.visit read (drains_of_each fun sub member => ?_)
    have below : Below exchange store current sub := ⟨message, read, List.mem_reverse.mp member⟩
    exact step sub below fun digest reaches => stored digest (.head below reaches)

/-- What holds during the loop. -/
structure Collecting (exchange : Exchange Hash) (store : BlobStore Hash) (root : Hash)
    (stack : List Hash) (found : List (Hash × DirectoryMessage Hash)) : Prop where
  nodup : (found.map (·.1)).Nodup
  read : ∀ item ∈ found, readMessage exchange store item.1 = some item.2
  reached : ∀ digest ∈ stack ++ found.map (·.1), Runs.Reaches (Below exchange store) root digest
  closed : ∀ item ∈ found, ∀ sub ∈ item.2.directories.map (·.2), sub ∈ stack ++ found.map (·.1)
  start : root ∈ stack ++ found.map (·.1)

section
omit [DecidableEq Hash]

theorem Collecting.skip {current : Hash}
    (collecting : Collecting exchange store root (current :: rest) found)
    (known : current ∈ found.map (·.1)) : Collecting exchange store root rest found := by
  have still : ∀ digest ∈ current :: rest ++ found.map (·.1), digest ∈ rest ++ found.map (·.1) := by
    intro digest member
    cases mem_cons.mp member with
    | inl same => exact mem_append_right _ (same ▸ known)
    | inr later => exact later
  exact ⟨collecting.nodup, collecting.read,
    fun digest member => collecting.reached digest (mem_cons_of_mem _ member),
    fun item member sub inside => still sub (collecting.closed item member sub inside),
    still root collecting.start⟩

theorem Collecting.visit {current : Hash}
    (collecting : Collecting exchange store root (current :: rest) found)
    (fresh : current ∉ found.map (·.1)) (read : readMessage exchange store current = some message) :
    Collecting exchange store root ((message.directories.map (·.2)).reverse ++ rest)
      (found ++ [(current, message)]) := by
  have still : ∀ digest ∈ current :: rest ++ found.map (·.1),
      digest ∈ ((message.directories.map (·.2)).reverse ++ rest) ++
        (found ++ [(current, message)]).map (·.1) := by
    intro digest member
    simp only [cons_append, mem_cons, mem_append] at member
    simp only [map_append, map_cons, map_nil, mem_append, mem_singleton]
    tauto
  have here := collecting.reached current mem_cons_self
  refine ⟨?_, ?_, ?_, ?_, still root collecting.start⟩
  · rw [map_append]
    exact List.Nodup.append collecting.nodup (List.nodup_singleton _)
      (List.disjoint_singleton.mpr fresh)
  · intro item member
    cases mem_append.mp member with
    | inl old => exact collecting.read item old
    | inr new => exact mem_singleton.mp new ▸ read
  · intro digest member
    simp only [map_append, map_cons, map_nil, mem_append, List.mem_reverse, mem_singleton] at member
    rcases member with (sub | inRest) | old | new
    · exact here.tail ⟨message, read, sub⟩
    · exact collecting.reached digest
        (mem_append_left _ (mem_cons_of_mem _ inRest))
    · exact collecting.reached digest (mem_append_right _ old)
    · exact new ▸ here
  · intro item member sub inside
    cases mem_append.mp member with
    | inl old => exact still sub (collecting.closed item old sub inside)
    | inr new =>
      rw [mem_singleton.mp new] at inside
      exact mem_append_left _ (mem_append_left _ (List.mem_reverse.mpr inside))

end

theorem Collecting.ended {fuel : Nat} {result : List (Hash × DirectoryMessage Hash)}
    (collecting : Collecting exchange store root stack found)
    (ended : makeTreeLoop exchange store fuel stack found = some result) :
    Collecting exchange store root [] result := by
  induction fuel generalizing stack found with
  | zero => cases ended
  | succ fuel step =>
    cases stack with
    | nil =>
      rw [makeTreeLoop] at ended
      exact some.inj ended ▸ collecting
    | cons current rest =>
      rw [makeTreeLoop] at ended
      split at ended
      · next known =>
        obtain ⟨item, member, same⟩ := List.any_eq_true.mp known
        exact step (collecting.skip
          (mem_map.mpr ⟨item, member, of_decide_eq_true same⟩)) ended
      · next unknown =>
        have fresh : current ∉ found.map (·.1) := by
          intro old
          obtain ⟨item, member, same⟩ := mem_map.mp old
          exact unknown (List.any_eq_true.mpr ⟨item, member, decide_eq_true same⟩)
        cases read : readMessage exchange store current with
        | none =>
          rw [read] at ended
          cases ended
        | some message =>
          rw [read] at ended
          exact step (collecting.visit fresh read) ended

section
omit [DecidableEq Hash]

theorem Collecting.complete (collecting : Collecting exchange store root [] found) (digest : Hash) :
    digest ∈ found.map (·.1) ↔ Runs.Reaches (Below exchange store) root digest := by
  refine ⟨fun member => collecting.reached digest member, fun reaches => ?_⟩
  induction reaches with
  | refl => exact collecting.start
  | tail _ below inside =>
    obtain ⟨message, read, sub⟩ := below
    obtain ⟨item, member, same⟩ := mem_map.mp inside
    have own := collecting.read item member
    rw [same, read] at own
    exact collecting.closed item member _ (some.inj own ▸ sub)

theorem DirectoryDag.below_iff (dag : DirectoryDag exchange store root) (digest : Hash) :
    Relation.TransGen (Below exchange store) root digest ↔
      Runs.Reaches (Below exchange store) root digest ∧ digest ≠ root := by
  constructor
  · intro below
    refine ⟨below.to_reflTransGen, fun same => ?_⟩
    exact dag.acyclic.acyclic (same ▸ below)
  · intro ⟨reaches, other⟩
    cases Relation.reflTransGen_iff_eq_or_transGen.mp reaches with
    | inl same => exact absurd same other
    | inr below => exact below

end

theorem DirectoryDag.collected (dag : DirectoryDag exchange store root) :
    ∃ enough, ∀ fuel, enough ≤ fuel → ∃ found,
      makeTreeLoop exchange store fuel [root] [] = some found ∧
      Collecting exchange store root [] found := by
  obtain ⟨bound, runs⟩ := dag.drains
  obtain ⟨found, spent, small, run⟩ := runs []
  refine ⟨bound + 1, fun fuel atLeast => ⟨found, ?_⟩⟩
  have ended : makeTreeLoop exchange store fuel [root] [] = some found := by
    obtain ⟨left, same⟩ : ∃ left, fuel = (left + 1) + spent := ⟨fuel - spent - 1, by omega⟩
    have steps := run [] (left + 1)
    rw [append_nil] at steps
    rw [same, steps, makeTreeLoop]
  have start : Collecting exchange store root [root] [] :=
    ⟨nodup_nil, fun _ impossible => (by cases impossible),
      fun digest member => mem_singleton.mp member ▸ .refl,
      fun _ impossible => (by cases impossible), mem_cons_self⟩
  exact ⟨ended, start.ended ended⟩

theorem makeTree_of_dag (dag : DirectoryDag exchange store root)
    {sort : List (Hash × DirectoryMessage Hash) → List (Hash × DirectoryMessage Hash)}
    (permutes : ∀ items, (sort items).Perm items) : ∃ enough, ∀ fuel, enough ≤ fuel → ∃ tree,
      makeTree exchange fuel sort store root = some tree ∧
      readMessage exchange store root = some tree.root ∧ ListedOnce exchange store root tree := by
  obtain ⟨enough, collects⟩ := dag.collected
  refine ⟨enough, fun fuel atLeast => ?_⟩
  obtain ⟨found, ended, collecting⟩ := collects fuel atLeast
  have within := (collecting.complete root).mpr .refl
  cases first : found.find? (·.1 = root) with
  | none =>
    obtain ⟨item, member, same⟩ := mem_map.mp within
    exact absurd (decide_eq_true same) (List.find?_eq_none.mp first item member)
  | some item =>
    have holds := List.find?_some first
    have same : item.1 = root := of_decide_eq_true holds
    have perm := permutes (found.filter (·.1 ≠ root))
    have read : readMessage exchange store root = some item.2 :=
      same ▸ collecting.read item (List.mem_of_find?_eq_some first)
    have made : makeTree exchange fuel sort store root =
        some ⟨item.2, (sort (found.filter (·.1 ≠ root))).map (·.2)⟩ := by
      unfold makeTree
      rw [ended]
      simp only [first]
    refine ⟨_, made, read, (sort (found.filter (·.1 ≠ root))).map (·.1), ?_, ?_, ?_⟩
    · refine (perm.map _).nodup_iff.mpr (collecting.nodup.sublist ?_)
      exact List.Sublist.map _ List.filter_sublist
    · intro digest
      rw [(perm.map _).mem_iff, dag.below_iff, ← collecting.complete, mem_map, mem_map]
      constructor
      · intro ⟨other, member, named⟩
        have kept := mem_filter.mp member
        exact ⟨⟨other, kept.1, named⟩, named ▸ of_decide_eq_true kept.2⟩
      · intro ⟨⟨other, member, named⟩, different⟩
        exact ⟨other, mem_filter.mpr ⟨member, decide_eq_true (named ▸ different)⟩, named⟩
    · rw [map_map, map_map]
      refine map_congr_left fun other member => ?_
      exact (collecting.read other (mem_filter.mp (perm.mem_iff.mp member)).1).symm

end Building

/-! ## Populating responses -/

section Populating

variable {fetch : Hash → Option Str} {result : ActionResult Hash}

/-- The message that is recorded for an output directory, if it can be fetched. -/
def recorded (exchange : Exchange Hash) (fetch : Hash → Option Str)
    (directory : OutputDirectory Hash) : Option (TreeMessage Hash) :=
  (fetch directory.treeDigest).bind exchange.parseTree

/-- The digest of a root, as the artifact at a path. -/
def rootInfo (exchange : Exchange Hash) (tree : TreeMessage Hash) : ArtifactInfo Hash :=
  (exchange.blob (exchange.serializeDirectory tree.root), .tree)

/-- If a response was populated, the path of every output directory has the digest of the root of
its own message, and all directories of the message are stored. -/
def TreesMapped (exchange : Exchange Hash) (fetch : Hash → Option Str) (result : ActionResult Hash)
    (outcome : Option (ArtifactInfos Hash) × BlobStore Hash) : Prop :=
  ∀ infos, outcome.1 = some infos → ∀ directory ∈ result.outputDirectories, ∃ tree,
    recorded exchange fetch directory = some tree ∧
    valueAt directory.path infos = some (rootInfo exchange tree) ∧
    ∀ message ∈ tree.root :: tree.children,
      outcome.2 (exchange.blob (exchange.serializeDirectory message)) =
        some (exchange.serializeDirectory message)

/-- All messages are fetched, and a path stands for one directory and for nothing else. -/
structure Delivered (exchange : Exchange Hash) (fetch : Hash → Option Str)
    (result : ActionResult Hash) : Prop where
  fetched : ∀ directory ∈ result.outputDirectories, (fetch directory.treeDigest).isSome
  separate : ∀ directory ∈ result.outputDirectories,
    directory.path ∉ result.outputFiles.map (·.path) ++ (allLinks result).map (·.path)
  consistent : ∀ first ∈ result.outputDirectories, ∀ second ∈ result.outputDirectories,
    first.path = second.path → ∀ tree other, recorded exchange fetch first = some tree →
      recorded exchange fetch second = some other → tree.root = other.root

/-- Some blob that was fetched is not a message of a tree. -/
def Unreadable (exchange : Exchange Hash) (fetch : Hash → Option Str)
    (result : ActionResult Hash) : Prop :=
  ∃ directory ∈ result.outputDirectories, ∃ content,
    fetch directory.treeDigest = some content ∧ exchange.parseTree content = none

variable [DecidableEq Hash]

variable {content : Str}

theorem storeBlobs_stays {store : BlobStore Hash} (contents : List Str)
    (stored : store (exchange.blob content) = some content) :
    storeBlobs exchange contents store (exchange.blob content) = some content := by
  induction contents generalizing store with
  | nil => exact stored
  | cons first rest step =>
    refine step ?_
    unfold storeBlob
    by_cases same : exchange.blob content = exchange.blob first
    · rw [same, update_self, exchange.blob_injective same]
    · rw [update_of_ne same, stored]

theorem storeBlobs_stores {store : BlobStore Hash} (member : content ∈ contents) :
    storeBlobs exchange contents store (exchange.blob content) = some content := by
  induction contents generalizing store with
  | nil => cases member
  | cons first rest step =>
    cases mem_cons.mp member with
    | inr later => exact step later
    | inl same =>
      subst same
      exact storeBlobs_stays rest (update_self _ _ _)

/-- The blobs of a tree that are uploaded. -/
def treeBlobs (exchange : Exchange Hash) (tree : TreeMessage Hash) : List Str :=
  (tree.root :: tree.children).flatMap (messageBlobs exchange)

theorem uploadTrees_of_parsed {trees : List (TreeMessage Hash)}
    (parsed : List.Forall₂ (fun content tree => exchange.parseTree content = some tree)
      contents trees) (paths : List Str) (short : contents.length ≤ paths.length)
    (store : BlobStore Hash) : uploadTrees exchange paths contents store =
      (some (List.zipWith (fun path tree => (path, rootInfo exchange tree)) paths trees),
        storeBlobs exchange (trees.flatMap (treeBlobs exchange)) store) := by
  induction parsed generalizing paths store with
  | nil => cases paths <;> rfl
  | @cons content tree contents trees here _ step =>
    cases paths with
    | nil => cases short
    | cons path paths =>
      have rest := step paths (Nat.le_of_succ_le_succ short)
        (storeBlobs exchange (treeBlobs exchange tree) store)
      have blobs : storeBlobs exchange ((tree :: trees).flatMap (treeBlobs exchange)) store =
          storeBlobs exchange (trees.flatMap (treeBlobs exchange))
            (storeBlobs exchange (treeBlobs exchange tree) store) := by
        rw [flatMap_cons]
        exact foldl_append
      rw [uploadTrees, here, blobs]
      unfold treeBlobs at rest ⊢
      simp only [uploadTreeMessageDirectories, rest, map_some, List.zipWith_cons_cons]
      rfl

theorem uploadTrees_eq_none (member : content ∈ contents)
    (unreadable : exchange.parseTree content = none) (paths : List Str)
    (short : contents.length ≤ paths.length) (store : BlobStore Hash) :
    (uploadTrees exchange paths contents store).1 = none := by
  induction contents generalizing paths store with
  | nil => cases member
  | cons first rest step =>
    cases paths with
    | nil => cases short
    | cons path paths =>
      rw [uploadTrees]
      cases mem_cons.mp member with
      | inl same => rw [← same, unreadable]
      | inr later =>
        cases exchange.parseTree first with
        | none => rfl
        | some tree =>
          simp only [step later paths (Nat.le_of_succ_le_succ short), Option.map_none]

section
omit [DecidableEq Hash]

theorem readOrdered_parsed {directories : List (OutputDirectory Hash)}
    (readable : ∀ directory ∈ directories, ∀ content,
      fetch directory.treeDigest = some content → exchange.parseTree content ≠ none) :
    List.Forall₂ (fun content tree => exchange.parseTree content = some tree)
      (readOrdered fetch (directories.map (·.treeDigest)))
      (directories.filterMap (recorded exchange fetch)) := by
  induction directories with
  | nil => exact .nil
  | cons directory rest step =>
    have later := step (forall_mem_cons.mp readable).2
    unfold readOrdered at later ⊢
    rw [map_cons]
    cases there : fetch directory.treeDigest with
    | none =>
      have missing : recorded exchange fetch directory = none := by rw [recorded, there]; rfl
      rw [List.filterMap_cons_none there, List.filterMap_cons_none missing]
      exact later
    | some content =>
      obtain ⟨tree, parses⟩ := Option.ne_none_iff_exists'.mp
        (readable directory mem_cons_self content there)
      have found : recorded exchange fetch directory = some tree := by
        rw [recorded, there]
        exact parses
      rw [List.filterMap_cons_some there, List.filterMap_cons_some found]
      exact .cons parses later

theorem zip_recorded {directories : List (OutputDirectory Hash)}
    (all : ∀ directory ∈ directories, (recorded exchange fetch directory).isSome) :
    List.zipWith (fun path tree => (path, rootInfo exchange tree)) (directories.map (·.path))
        (directories.filterMap (recorded exchange fetch)) = directories.filterMap fun directory =>
        (recorded exchange fetch directory).map fun tree =>
          (directory.path, rootInfo exchange tree) := by
  induction directories with
  | nil => rfl
  | cons directory rest step =>
    obtain ⟨tree, found⟩ := isSome_iff_exists.mp (all directory mem_cons_self)
    rw [List.filterMap_cons_some found, map_cons, List.zipWith_cons_cons,
      step (forall_mem_cons.mp all).2,
      List.filterMap_cons_some (by rw [found]; rfl)]

theorem length_readOrdered (digests : List Hash) :
    (readOrdered fetch digests).length ≤ digests.length := List.length_filterMap_le _ _

end

/-- The files and links of a result. -/
def plainInfos (exchange : Exchange Hash) (result : ActionResult Hash) : ArtifactInfos Hash :=
  fileInfos result ++ linkInfos exchange (allLinks result)

/-- The paths of output directories with the digests that they get by position. -/
def treeInfos (exchange : Exchange Hash) (fetch : Hash → Option Str)
    (result : ActionResult Hash) : ArtifactInfos Hash :=
  List.zipWith (fun path tree => (path, rootInfo exchange tree))
    (result.outputDirectories.map (·.path))
    (result.outputDirectories.filterMap (recorded exchange fetch))

theorem populate_of_readable (compatible : exchange.native = false)
    (readable : ¬ Unreadable exchange fetch result) (store : BlobStore Hash) :
    BazelResponse.populateFetching exchange fetch store result =
      (some (emplaceAll (plainInfos exchange result ++ treeInfos exchange fetch result) []),
        storeBlobs exchange ((result.outputDirectories.filterMap
          (recorded exchange fetch)).flatMap (treeBlobs exchange))
          (storeBlobs exchange ((allLinks result).map (·.target)) store)) := by
  have parsed := @readOrdered_parsed _ exchange fetch result.outputDirectories
    fun directory member content there unparsed =>
      readable ⟨directory, member, content, there, unparsed⟩
  have short := @length_readOrdered _ fetch (result.outputDirectories.map (·.treeDigest))
  rw [length_map] at short
  have uploaded := uploadTrees_of_parsed parsed (result.outputDirectories.map (·.path))
    (by rw [length_map]; exact short)
    (storeBlobs exchange ((allLinks result).map (·.target)) store)
  unfold BazelResponse.populateFetching
  rw [compatible]
  simp only [false_eq_true, ↓reduceIte, uploaded]
  rfl

theorem populate_of_unreadable (compatible : exchange.native = false)
    (unreadable : Unreadable exchange fetch result) (store : BlobStore Hash) :
    (BazelResponse.populateFetching exchange fetch store result).1 = none := by
  obtain ⟨directory, member, content, there, unparsed⟩ := unreadable
  have read : content ∈ readOrdered fetch (result.outputDirectories.map (·.treeDigest)) :=
    List.mem_filterMap.mpr ⟨_, mem_map_of_mem member, there⟩
  have short := @length_readOrdered _ fetch (result.outputDirectories.map (·.treeDigest))
  rw [length_map] at short
  have fails := uploadTrees_eq_none read unparsed (result.outputDirectories.map (·.path))
    (by rw [length_map]; exact short)
    (storeBlobs exchange ((allLinks result).map (·.target)) store)
  unfold BazelResponse.populateFetching
  rw [compatible]
  simp only [false_eq_true, ↓reduceIte, fails, Option.map_none]

section
omit [DecidableEq Hash]

theorem paths_plainInfos : (plainInfos exchange result).map (·.1) =
    result.outputFiles.map (·.path) ++ (allLinks result).map (·.path) := by
  simp [plainInfos, fileInfos, linkInfos, comp_def]

theorem type_plainInfos {item : Str × ArtifactInfo Hash}
    (member : item ∈ plainInfos exchange result) : item.2.2 ≠ .tree := by
  unfold plainInfos fileInfos linkInfos at member
  cases mem_append.mp member with
  | inl isFile =>
    obtain ⟨file, _, rfl⟩ := mem_map.mp isFile
    dsimp only
    split <;> simp
  | inr isLink =>
    obtain ⟨link, _, rfl⟩ := mem_map.mp isLink
    simp

theorem root_of_rootInfo {tree other : TreeMessage Hash}
    (same : rootInfo exchange tree = rootInfo exchange other) : tree.root = other.root := by
  have digests : exchange.blob (exchange.serializeDirectory tree.root) =
      exchange.blob (exchange.serializeDirectory other.root) := (Prod.mk.inj same).1
  have read := exchange.parse_serialize tree.root
  rw [exchange.blob_injective digests, exchange.parse_serialize] at read
  exact (some.inj read).symm

theorem Delivered.value (delivered : Delivered exchange fetch result)
    (readable : ¬ Unreadable exchange fetch result) {directory : OutputDirectory Hash}
    (member : directory ∈ result.outputDirectories) :
    ∃ tree, recorded exchange fetch directory = some tree ∧
      valueAt directory.path (plainInfos exchange result ++ treeInfos exchange fetch result) =
        some (rootInfo exchange tree) := by
  have all : ∀ other ∈ result.outputDirectories, (recorded exchange fetch other).isSome := by
    intro other inside
    obtain ⟨content, there⟩ := isSome_iff_exists.mp (delivered.fetched other inside)
    rw [recorded, there]
    refine Option.isSome_iff_ne_none.mpr fun unparsed => ?_
    exact readable ⟨other, inside, content, there, unparsed⟩
  obtain ⟨tree, found⟩ := isSome_iff_exists.mp (all directory member)
  refine ⟨tree, found, ?_⟩
  have noPlain : valueAt directory.path (plainInfos exchange result) = none := by
    rw [valueAt_eq_none, paths_plainInfos]
    exact delivered.separate directory member
  rw [valueAt_append, noPlain, none_or, treeInfos, zip_recorded all]
  cases value : valueAt directory.path (result.outputDirectories.filterMap fun directory =>
      (recorded exchange fetch directory).map fun tree =>
        (directory.path, rootInfo exchange tree)) with
  | none =>
    refine absurd (mem_map.mpr ⟨(directory.path, rootInfo exchange tree), ?_, rfl⟩)
      (valueAt_eq_none.mp value)
    exact List.mem_filterMap.mpr ⟨directory, member, by rw [found]; rfl⟩
  | some info =>
    -- the item may be that of another directory with the same path
    obtain ⟨other, inside, named⟩ := List.mem_filterMap.mp (mem_of_valueAt value)
    obtain ⟨otherTree, otherFound, pair⟩ := map_eq_some_iff.mp named
    obtain ⟨samePath, rfl⟩ := Prod.mk.inj pair
    have sameRoot :=
      delivered.consistent other inside directory member samePath _ _ otherFound found
    rw [rootInfo, sameRoot, ← rootInfo]

end

theorem treesMapped_iff (compatible : exchange.native = false) (store : BlobStore Hash) :
    TreesMapped exchange fetch result (BazelResponse.populateFetching exchange fetch store result) ↔
      Unreadable exchange fetch result ∨ Delivered exchange fetch result := by
  by_cases unreadable : Unreadable exchange fetch result
  · refine ⟨fun _ => .inl unreadable, fun _ infos populated => ?_⟩
    rw [populate_of_unreadable compatible unreadable] at populated
    cases populated
  · rw [populate_of_readable compatible unreadable]
    constructor
    · intro mapped
      have values := mapped _ rfl
      refine .inr ⟨?_, ?_, ?_⟩
      · intro directory member
        obtain ⟨tree, found, _⟩ := values directory member
        obtain ⟨content, there, _⟩ := bind_eq_some_iff.mp found
        exact isSome_iff_exists.mpr ⟨content, there⟩
      · intro directory member plain
        obtain ⟨tree, _, value, _⟩ := values directory member
        rw [← @paths_plainInfos _ exchange] at plain
        obtain ⟨info, first⟩ :=
          Option.ne_none_iff_exists'.mp fun without => valueAt_eq_none.mp without plain
        rw [valueAt_emplaceAll_first, nil_append, valueAt_append, first, Option.some_or] at value
        have isTree : info = rootInfo exchange tree := some.inj value
        exact type_plainInfos (mem_of_valueAt first) (isTree ▸ rfl)
      · intro first firstMember second secondMember samePath tree other found otherFound
        obtain ⟨own, ownFound, value, _⟩ := values first firstMember
        obtain ⟨another, anotherFound, anotherValue, _⟩ := values second secondMember
        obtain rfl : own = tree := some.inj (ownFound.symm.trans found)
        obtain rfl : another = other := some.inj (anotherFound.symm.trans otherFound)
        rw [← samePath, value] at anotherValue
        exact root_of_rootInfo (some.inj anotherValue)
    · intro delivered infos populated directory member
      have all := delivered.resolve_left unreadable
      obtain rfl : _ = infos := some.inj populated
      obtain ⟨tree, found, value⟩ := all.value unreadable member
      refine ⟨tree, found, ?_, fun message inside => storeBlobs_stores ?_⟩
      · rw [valueAt_emplaceAll_first]
        exact value
      · refine List.mem_flatMap.mpr ⟨tree, List.mem_filterMap.mpr ⟨directory, member, found⟩, ?_⟩
        exact List.mem_flatMap.mpr ⟨message, inside, mem_cons_self⟩

end Populating

/-! ## Both directions -/

section Both

variable [DecidableEq Hash]

/-- The digest that a path gets for a message. -/
def processed (exchange : Exchange Hash) (content : Str) (store : BlobStore Hash) : Option Hash :=
  (exchange.parseTree content).map fun tree =>
    (uploadTreeMessageDirectories exchange tree store).1

/-- A directory is stored as its message is serialised. -/
def Canonical (exchange : Exchange Hash) (store : BlobStore Hash) (root : Hash) : Prop :=
  ∃ message, store root = some (exchange.serializeDirectory message)

theorem processed_iff {source : BlobStore Hash} {root : Hash}
    (addressed : Addressed exchange source) {tree : TreeMessage Hash}
    (read : readMessage exchange source root = some tree.root) (after : BlobStore Hash) :
    processed exchange (exchange.serializeTree tree) after = some root ↔
      Canonical exchange source root := by
  obtain ⟨content, there, parses⟩ := bind_eq_some_iff.mp read
  have own : exchange.blob content = root := addressed root content there
  have digest : processed exchange (exchange.serializeTree tree) after =
      some (exchange.blob (exchange.serializeDirectory tree.root)) := by
    rw [processed, exchange.parse_serializeTree]
    rfl
  rw [digest, some.injEq, ← own]
  constructor
  · intro same
    exact ⟨tree.root, by rw [own, there, exchange.blob_injective same]⟩
  · intro ⟨message, stored⟩
    rw [own, there, some.injEq] at stored
    rw [stored, exchange.parse_serialize] at parses
    rw [stored, some.inj parses]

/-- A client maps every output directory to the root of its own tree exactly if no fetched blob can
be mistaken for the message of another directory, and the messages that a server makes list every
directory once and give the digests of the directories that are stored as they are serialised. -/
theorem tree_responses (exchange : Exchange Hash) (compatible : exchange.native = false)
    (fetch : Hash → Option Str) (store : BlobStore Hash) (result : ActionResult Hash)
    (source : BlobStore Hash) (addressed : Addressed exchange source) (root : Hash)
    (dag : DirectoryDag exchange source root)
    (sort : List (Hash × DirectoryMessage Hash) → List (Hash × DirectoryMessage Hash))
    (permutes : ∀ items, (sort items).Perm items) :
    (TreesMapped exchange fetch result
        (BazelResponse.populateFetching exchange fetch store result) ↔
      Unreadable exchange fetch result ∨ Delivered exchange fetch result) ∧
    ∃ enough, ∀ fuel, enough ≤ fuel → ∃ tree,
      makeTree exchange fuel sort source root = some tree ∧
      ListedOnce exchange source root tree ∧
      ∀ after, processed exchange (exchange.serializeTree tree) after = some root ↔
        Canonical exchange source root := by
  refine ⟨treesMapped_iff compatible store, ?_⟩
  obtain ⟨enough, makes⟩ := makeTree_of_dag dag permutes
  refine ⟨enough, fun fuel atLeast => ?_⟩
  obtain ⟨tree, made, read, once⟩ := makes fuel atLeast
  exact ⟨tree, made, once, fun after => processed_iff addressed read after⟩

end Both

/-! ## A concrete format -/

open CachedResults (plainExchange)

/-- A result with two output directories, the second of which is empty. -/
def twoDirectories : ActionResult Str :=
  { (ActionResult.empty none none 0) with
    outputDirectories := [⟨lit "a", lit "missing"⟩, ⟨lit "b", []⟩] }

/-- Only the message of the second directory can be fetched. -/
def secondOnly (digest : Str) : Option Str := if digest = [] then some [] else none

theorem other_tree : (BazelResponse.populateFetching (plainExchange false) secondOnly
      (fun _ => none) twoDirectories).1 = some [(lit "a", [], .tree)] ∧
    ¬ TreesMapped (plainExchange false) secondOnly twoDirectories
      (BazelResponse.populateFetching (plainExchange false) secondOnly (fun _ => none)
        twoDirectories) := by
  have populated : (BazelResponse.populateFetching (plainExchange false) secondOnly
      (fun _ => none) twoDirectories).1 = some [(lit "a", [], .tree)] := rfl
  refine ⟨populated, fun mapped => ?_⟩
  obtain ⟨tree, found, _⟩ := mapped _ populated ⟨lit "a", lit "missing"⟩ mem_cons_self
  cases found

/-- A directory with an empty one in it. -/
def nested : DirectoryMessage Str := ⟨[], [], [(lit "sub", [])]⟩

/-- It is stored. -/
def nestedStore : BlobStore Str :=
  storeBlobs (plainExchange false)
    [(plainExchange false).serializeDirectory nested, []] fun _ => none

theorem nestedStore_grown : Addressed (plainExchange false) nestedStore ∧
    nestedStore ((plainExchange false).serializeDirectory nested) =
      some ((plainExchange false).serializeDirectory nested) ∧ nestedStore [] = some [] := by
  have stored := @storeBlobs_grown _ (plainExchange false) _ (fun _ => none)
    (fun _ _ impossible => by cases impossible)
    [(plainExchange false).serializeDirectory nested, []]
  exact ⟨stored.1.addressed fun _ _ impossible => (by cases impossible),
    stored.2 _ mem_cons_self, stored.2 [] (mem_cons_of_mem _ mem_cons_self)⟩

theorem nested_dag : DirectoryDag (plainExchange false) nestedStore
    ((plainExchange false).serializeDirectory nested) := by
  have outer := readMessage_of_stored nestedStore_grown.2.1
  have inner : readMessage (plainExchange false) nestedStore [] = some ⟨[], [], []⟩ :=
    readMessage_of_stored nestedStore_grown.2.2
  have leaf : ∀ sub, ¬ Below (plainExchange false) nestedStore [] sub := by
    intro sub ⟨message, read, member⟩
    rw [inner] at read
    obtain rfl := some.inj read
    cases member
  have onlyLeaf : ∀ sub, Below (plainExchange false) nestedStore
      ((plainExchange false).serializeDirectory nested) sub → sub = [] := by
    intro sub ⟨message, read, member⟩
    rw [outer] at read
    obtain rfl := some.inj read
    exact mem_singleton.mp member
  constructor
  · intro digest reaches
    cases Relation.ReflTransGen.cases_head reaches with
    | inl same => rw [← same, outer]; rfl
    | inr onward =>
      obtain ⟨sub, below, rest⟩ := onward
      rw [onlyLeaf sub below] at rest
      cases Relation.ReflTransGen.cases_head rest with
      | inl same => rw [← same, inner]; rfl
      | inr further =>
        obtain ⟨next, lower, _⟩ := further
        exact absurd lower (leaf next)
  · refine Acc.intro _ fun sub below => Acc.intro _ fun next lower => ?_
    rw [onlyLeaf sub below] at lower
    exact absurd lower (leaf next)

theorem nested_response :
    (TreesMapped (plainExchange false) secondOnly twoDirectories
        (BazelResponse.populateFetching (plainExchange false) secondOnly (fun _ => none)
          twoDirectories) ↔
      Unreadable (plainExchange false) secondOnly twoDirectories ∨
        Delivered (plainExchange false) secondOnly twoDirectories) ∧
    ∃ enough, ∀ fuel, enough ≤ fuel → ∃ tree,
      makeTree (plainExchange false) fuel id nestedStore
        ((plainExchange false).serializeDirectory nested) = some tree ∧
      ListedOnce (plainExchange false) nestedStore
        ((plainExchange false).serializeDirectory nested) tree ∧
      ∀ after, processed (plainExchange false) ((plainExchange false).serializeTree tree) after =
          some ((plainExchange false).serializeDirectory nested) ↔
        Canonical (plainExchange false) nestedStore
          ((plainExchange false).serializeDirectory nested) :=
  tree_responses (plainExchange false) rfl secondOnly (fun _ => none) twoDirectories nestedStore
    nestedStore_grown.1 _ nested_dag id fun items => .refl items

end Jst.Verif.TreeResponses
