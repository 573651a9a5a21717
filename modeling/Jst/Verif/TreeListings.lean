import Jst.Execution.TreeListing
import Jst.Verif.TreeReading
import Jst.Data.Listing
/-!
# What listing a tree yields

All leaves below a tree are listed only if every tree below can be read, each with the names that
lead to it. The direct entries are listed the same way, except that a tree that cannot be read
counts as one without entries.
-/
namespace Jst.Verif.TreeListings

open Tree Execution TreeReading Listing

variable {Hash : Type} [DecidableEq Hash]

variable {infos : List (Str × Option (ObjectInfo Hash))} {result final : ReadTreeResult Hash}

/-- An entry whose digest is valid. -/
def valid (entry : Str × Option (ObjectInfo Hash)) : Option (Str × ObjectInfo Hash) :=
  entry.2.map fun info => (entry.1, info)

/-- The trees of a store, with their entries in the order of the stored objects. A tree is there if
it can be read and all its entries are valid. -/
def trees (formats : Formats Hash) (source : Store Hash) (includeTrees : Bool) :
    Directories (ArtifactDigest Hash) Str (ObjectInfo Hash) where
  direct digest :=
    if formats.native then do
      let _ ← formats.readGitTree source digest
      let raw ← formats.gitTree (formats.content digest)
      raw.mapM fun entry => entry.type.map fun type => (entry.name, entryInfo (type, entry.hash))
    else do
      let directory ← formats.readDirectory source digest
      (directory.objectInfos formats.hashFile).mapM valid
  sub info := if info.type = .tree then some info.digest else none
  emptied digest :=
    if includeTrees then some { digest := digest, type := .tree, failed := false } else none

/-- The result for some leaves, with their paths below a parent. -/
def listed (parent : Str) (leaves : List (List Str × ObjectInfo Hash)) : ReadTreeResult Hash where
  paths := leaves.map fun leaf => leaf.1.foldl Path.append parent
  infos := leaves.map snd

/-- What listing a tree has to yield. -/
structure Right (formats : Formats Hash) (source : Store Hash) (digest : ArtifactDigest Hash)
    (parent : Str) : Prop where
  direct : ∀ result, (formats.reader source).readDirectTreeEntries digest parent = some result →
    ∃ entries found, (trees formats source false).direct digest = some entries ∧
      entries.Perm found ∧
      result = listed parent (found.map fun entry => ([entry.1], entry.2))
  leaves : ∀ fuel includeTrees result,
    (formats.reader source).recursivelyReadTreeLeafs fuel digest parent includeTrees = some result →
    (∀ lower, Relation.ReflTransGen (trees formats source includeTrees).Within digest lower →
      readsTree formats source lower = true) ∧
    ∃ leaves found, (trees formats source includeTrees).Lists digest leaves ∧
      leaves.Perm found ∧ result = listed parent found ∧
      (∀ path leaf, (path, leaf) ∈ found ↔
        (trees formats source includeTrees).Leaf digest path leaf) ∧
      ((∀ id entries, (trees formats source includeTrees).direct id = some entries →
        (entries.map fst).Nodup) → found.Nodup)

/-- The entries of a tree, in the order in which they are read. -/
def read (formats : Formats Hash) (source : Store Hash) (digest : ArtifactDigest Hash) :
    Option (List (Str × Option (ObjectInfo Hash))) :=
  if formats.native then (formats.readGitTree source digest).map gitObjectInfos
  else (formats.readDirectory source digest).map (Directory.objectInfos formats.hashFile)

/-- The trees of a store, with their entries in the order in which they are read. -/
def readTrees (formats : Formats Hash) (source : Store Hash) (includeTrees : Bool) :
    Directories (ArtifactDigest Hash) Str (ObjectInfo Hash) where
  direct digest := (read formats source digest).bind fun infos => infos.mapM valid
  sub := (trees formats source includeTrees).sub
  emptied := (trees formats source includeTrees).emptied

variable {formats : Formats Hash} {source : Store Hash} {includeTrees : Bool}
  {digest : ArtifactDigest Hash} {parent : Str}

theorem gitInfos_perm (tree : GitTree Hash) : (gitInfos (readDirectTree tree)).Perm
    (tree.map fun entry => (entry.name, entryInfo (entry.type, entry.hash))) := by
  have grouped := (Grouping.group_perm
    (tree.map fun entry => (entry.hash, entry.name, entry.type))).map
      fun entry => (entry.2.1, entryInfo (entry.2.2, entry.1))
  simp only [List.map_flatMap, map_map] at grouped
  exact grouped

omit [DecidableEq Hash] in
theorem mapM_valid (entries : List (Str × ObjectInfo Hash)) :
    (entries.map fun entry => (entry.1, some entry.2)).mapM valid = some entries := by
  induction entries with
  | nil => rfl
  | cons entry rest step =>
    rw [map_cons, mapM_cons, step]
    rfl

theorem alike : (readTrees formats source includeTrees).Alike (trees formats source includeTrees) where
  direct := by
    intro digest entries found
    unfold trees
    unfold readTrees read at found
    by_cases native : formats.native = true
    · simp only [if_pos native] at found ⊢
      obtain ⟨infos, reads, complete⟩ := bind_eq_some_iff.mp found
      obtain ⟨groups, stored, rfl⟩ := map_eq_some_iff.mp reads
      obtain ⟨-, raw, tree, parsed, walked, rfl, -⟩ := readGitTree_eq_some.mp stored
      have same : gitInfos (readDirectTree tree) = entries :=
        some.inj ((mapM_valid _).symm.trans complete)
      subst same
      refine ⟨_, ?_, gitInfos_perm tree⟩
      simp only [stored, parsed, bind_eq_bind, bind_some]
      have mapped := Loops.mapM_bind_mapM raw
        (fun entry => entry.type.map fun type =>
          ({ name := entry.name, type := type, hash := entry.hash } : GitEntry Hash))
        fun entry => some (entry.name, entryInfo (entry.type, entry.hash))
      change (flatTreeWalker raw).bind _ = _ at mapped
      rw [walked, bind_some, Loops.mapM_some] at mapped
      rw [mapped]
      refine Loops.mapM_congr fun entry _ => ?_
      cases entry.type <;> rfl
    · simp only [if_neg native] at found ⊢
      obtain ⟨infos, reads, complete⟩ := bind_eq_some_iff.mp found
      obtain ⟨directory, stored, rfl⟩ := map_eq_some_iff.mp reads
      refine ⟨entries, ?_, .refl _⟩
      rw [stored]
      exact complete
  sub := rfl
  emptied := rfl

/-- Add some leaves, with their paths below a parent, to a result. -/
def extend (parent : Str) (result : ReadTreeResult Hash)
    (leaves : List (List Str × ObjectInfo Hash)) : ReadTreeResult Hash where
  paths := result.paths ++ (listed parent leaves).paths
  infos := result.infos ++ (listed parent leaves).infos

section
omit [DecidableEq Hash]

@[simp] theorem extend_nil (result : ReadTreeResult Hash) : extend parent result [] = result := by
  simp [extend, listed]

theorem extend_append (result : ReadTreeResult Hash)
    (front back : List (List Str × ObjectInfo Hash)) :
    extend parent result (front ++ back) = extend parent (extend parent result front) back := by
  simp [extend, listed]

theorem extend_below (name : Str) (result : ReadTreeResult Hash)
    (leaves : List (List Str × ObjectInfo Hash)) :
    extend parent result (leaves.map fun leaf => (name :: leaf.1, leaf.2)) =
      extend (Path.append parent name) result leaves := by
  simp [extend, listed, comp_def]

end

theorem recursively_succ (fuel : Nat) (result : ReadTreeResult Hash) :
    (formats.reader source).readObjectInfosRecursively includeTrees (fuel + 1) parent digest result =
      (read formats source digest).bind fun infos => readObjectInfos infos (fun path info result =>
            if info.type = .tree then
              (formats.reader source).readObjectInfosRecursively includeTrees fuel
                (Path.append parent path) info.digest result
            else some (result.store (Path.append parent path) info))
          (if includeTrees && infos.isEmpty then
            result.store parent { digest := digest, type := .tree, failed := false } else result) := by
  rw [TreeReader.readObjectInfosRecursively, read]
  change (if (!formats.native) = true then _ else _) = _
  by_cases native : formats.native = true
  · simp only [native, Bool.not_true, false_eq_true, if_false, if_true]
    dsimp only [Formats.reader]
    cases reads : formats.readGitTree source digest with
    | none => rfl
    | some groups =>
      obtain ⟨-, raw, tree, -, -, rfl, -⟩ := readGitTree_eq_some.mp reads
      have empty : (readDirectTree tree).isEmpty = (gitObjectInfos (readDirectTree tree)).isEmpty := by
        have same := gitInfos_perm tree
        rw [Bool.eq_iff_iff, List.isEmpty_iff, List.isEmpty_iff]
        constructor
        · intro none'
          rw [none']
          rfl
        · intro none'
          rw [List.map_eq_nil_iff.mp none', List.nil_perm, List.map_eq_nil_iff] at same
          subst same
          rfl
      simp only [map_some, bind_some, empty]
  · simp only [native, Bool.not_false, if_true, false_eq_true, if_false]
    dsimp only [Formats.reader]
    cases reads : formats.readDirectory source digest with
    | none => rfl
    | some directory =>
      have empty : isDirectoryEmpty directory =
          (directory.objectInfos formats.hashFile).isEmpty := by
        rw [Bool.eq_iff_iff]
        simp [isDirectoryEmpty, Directory.objectInfos]
        tauto
      simp only [map_some, bind_some, empty]

omit [DecidableEq Hash] in
theorem readObjectInfos_cons {State : Type} (name : Str) (info : ObjectInfo Hash)
    (rest : List (Str × Option (ObjectInfo Hash)))
    (storeInfo : Str → ObjectInfo Hash → State → Option State) (state : State) :
    readObjectInfos ((name, some info) :: rest) storeInfo state =
      (storeInfo name info state).bind (readObjectInfos rest storeInfo) := rfl

theorem readObjectInfos_sound
    {storeInfo : Str → ObjectInfo Hash → ReadTreeResult Hash → Option (ReadTreeResult Hash)}
    (sound : ∀ name info result next, storeInfo name info result = some next →
      ∃ part, (readTrees formats source includeTrees).Part (name, info) part ∧
        next = extend parent result part)
    (success : readObjectInfos infos storeInfo result = some final) :
    ∃ entries leaves, infos.mapM valid = some entries ∧
      (readTrees formats source includeTrees).Entries entries leaves ∧
      final = extend parent result leaves := by
  induction infos generalizing result with
  | nil =>
    cases success
    exact ⟨[], [], rfl, .nil, (extend_nil _).symm⟩
  | cons first rest step =>
    obtain ⟨name, info⟩ := first
    rw [readObjectInfos, foldlM_cons] at success
    obtain ⟨next, stored, success⟩ := bind_eq_some_iff.mp success
    obtain ⟨info, rfl, stored⟩ := bind_eq_some_iff.mp stored
    obtain ⟨part, listed, rfl⟩ := sound name info result next stored
    obtain ⟨entries, leaves, complete, others, rfl⟩ := step success
    refine ⟨(name, info) :: entries, part ++ leaves, ?_,
      Directories.entries_cons.mpr ⟨part, leaves, rfl, listed, others⟩,
      (extend_append _ _ _).symm⟩
    rw [mapM_cons, complete]
    rfl

omit [DecidableEq Hash] in
theorem isEmpty_of_valid {entries : List (Str × ObjectInfo Hash)}
    (complete : infos.mapM valid = some entries) : infos.isEmpty = entries.isEmpty := by
  have same := (Loops.mapM_eq_some.mp complete).length_eq
  cases infos <;> cases entries <;> simp_all

theorem extend_mark {entries : List (Str × ObjectInfo Hash)}
    (complete : infos.mapM valid = some entries) (result : ReadTreeResult Hash) :
    (if includeTrees && infos.isEmpty then
      result.store parent { digest := digest, type := .tree, failed := false } else result) =
      extend parent result ((readTrees formats source includeTrees).mark digest entries) := by
  rw [isEmpty_of_valid complete]
  cases entries with
  | nil => cases includeTrees <;> simp [Directories.mark, readTrees, trees, extend, listed,
      ReadTreeResult.store]
  | cons => simp [Directories.mark]

theorem recursively_sound (fuel : Nat)
    (success : (formats.reader source).readObjectInfosRecursively includeTrees fuel parent digest
      result = some final) : ∃ leaves, (readTrees formats source includeTrees).Lists digest leaves ∧
      final = extend parent result leaves := by
  induction fuel generalizing parent digest result final with
  | zero => cases success
  | succ fuel step =>
    rw [recursively_succ] at success
    obtain ⟨infos, reads, success⟩ := bind_eq_some_iff.mp success
    have sound : ∀ name (info : ObjectInfo Hash) result next,
        (if info.type = .tree then
          (formats.reader source).readObjectInfosRecursively includeTrees fuel
            (Path.append parent name) info.digest result
        else some (ReadTreeResult.store (Path.append parent name) info result)) = some next →
        ∃ part, (readTrees formats source includeTrees).Part (name, info) part ∧
          next = extend parent result part := by
      intro name info result next stored
      unfold Directories.Part
      by_cases tree : info.type = .tree
      · rw [if_pos tree] at stored
        obtain ⟨leaves, listed, rfl⟩ := step stored
        have leads : (readTrees formats source includeTrees).sub info = some info.digest :=
          if_pos tree
        simp only [leads]
        exact ⟨_, ⟨leaves, listed, rfl⟩, (extend_below _ _ _).symm⟩
      · rw [if_neg tree] at stored
        have plain : (readTrees formats source includeTrees).sub info = none := if_neg tree
        simp only [plain]
        exact ⟨_, rfl, (some.inj stored).symm⟩
    obtain ⟨entries, below, complete, listed, rfl⟩ := readObjectInfos_sound sound success
    refine ⟨_, ⟨entries, below, ?_, listed, rfl⟩, ?_⟩
    · exact bind_eq_some_iff.mpr ⟨infos, reads, complete⟩
    · rw [extend_mark complete, extend_append]

theorem readsTree_of_direct (found : ((trees formats source includeTrees).direct digest).isSome) :
    readsTree formats source digest = true := by
  unfold trees at found
  unfold readsTree
  by_cases native : formats.native = true
  · simp only [if_pos native] at found ⊢
    cases reads : formats.readGitTree source digest with
    | none => simp [reads] at found
    | some => rfl
  · simp only [if_neg native] at found ⊢
    cases reads : formats.readDirectory source digest with
    | none => simp [reads] at found
    | some => rfl

theorem readsTree_iff : readsTree formats source digest = true ↔
    (read formats source digest).isSome := by
  unfold readsTree read
  by_cases native : formats.native = true
  · simp [if_pos native]
  · simp [if_neg native]

theorem readDirectTreeEntries_eq : (formats.reader source).readDirectTreeEntries digest parent =
      match read formats source digest with
      | none => some ⟨[], []⟩
      | some infos => readObjectInfos infos
          (fun path info result => some (result.store (Path.append parent path) info)) ⟨[], []⟩ := by
  unfold TreeReader.readDirectTreeEntries read
  change (if (!formats.native) = true then _ else _) = _
  by_cases native : formats.native = true
  · simp only [native, Bool.not_true, false_eq_true, if_false, if_true]
    dsimp only [Formats.reader]
    cases formats.readGitTree source digest <;> rfl
  · simp only [native, Bool.not_false, if_true, false_eq_true, if_false]
    dsimp only [Formats.reader]
    cases formats.readDirectory source digest <;> rfl

omit [DecidableEq Hash] in
theorem readObjectInfos_direct (success : readObjectInfos infos
      (fun path info result => some (result.store (Path.append parent path) info)) result =
        some final) : ∃ entries, infos.mapM valid = some entries ∧
      final = extend parent result (entries.map fun entry => ([entry.1], entry.2)) := by
  induction infos generalizing result with
  | nil =>
    cases success
    exact ⟨[], rfl, (extend_nil _).symm⟩
  | cons first rest step =>
    obtain ⟨name, info⟩ := first
    cases info with
    | none => cases success
    | some info =>
      rw [readObjectInfos_cons, bind_some] at success
      obtain ⟨entries, complete, rfl⟩ := step success
      refine ⟨(name, info) :: entries, ?_, ?_⟩
      · rw [mapM_cons, complete]
        rfl
      · exact (extend_append _ [([name], info)] _).symm

/-- Listing a tree is right exactly if it can be read: else its direct entries are listed as if
there were none. -/
theorem right_iff (formats : Formats Hash) (source : Store Hash) (digest : ArtifactDigest Hash)
    (parent : Str) : Right formats source digest parent ↔
      readsTree formats source digest = true := by
  constructor
  · intro right
    rw [readsTree_iff]
    by_contra unread
    have empty := @readDirectTreeEntries_eq _ _ formats source digest parent
    rw [not_isSome_iff_eq_none.mp unread] at empty
    obtain ⟨entries, _, found, -, -⟩ := right.direct _ empty
    exact unread (readsTree_iff.mp (readsTree_of_direct (isSome_iff_exists.mpr ⟨_, found⟩)))
  · intro readable
    refine ⟨fun result success => ?_, fun fuel includeTrees result success => ?_⟩
    · obtain ⟨infos, reads⟩ := isSome_iff_exists.mp (readsTree_iff.mp readable)
      rw [readDirectTreeEntries_eq, reads] at success
      obtain ⟨entries, complete, rfl⟩ := readObjectInfos_direct success
      have found : (readTrees formats source false).direct digest = some entries :=
        bind_eq_some_iff.mpr ⟨infos, reads, complete⟩
      obtain ⟨others, direct, same⟩ := alike.direct digest entries found
      exact ⟨others, entries, direct, same.symm, by simp [extend]⟩
    · obtain ⟨found, listed, rfl⟩ := recursively_sound fuel success
      obtain ⟨leaves, stored, same⟩ := listed.alike alike
      refine ⟨fun lower below => readsTree_of_direct (stored.read below), leaves, found, stored,
        same.symm, by simp [extend], fun path leaf => ?_, fun distinct => ?_⟩
      · rw [same.mem_iff, stored.mem]
      · exact same.nodup_iff.mpr (stored.nodup distinct)

/-- Git trees in an empty store. -/
def nothingStored : Formats Nat where
  native := true
  content _ := []
  gitTree _ := none
  directory _ := none
  hashFile _ := 0

theorem nothingStored_lists :
    (nothingStored.reader []).readDirectTreeEntries ⟨1, true⟩ [] = some ⟨[], []⟩ ∧
      (∀ fuel, (nothingStored.reader []).recursivelyReadTreeLeafs fuel ⟨1, true⟩ [] false = none) ∧
      ¬ Right nothingStored [] ⟨1, true⟩ [] := by
  refine ⟨rfl, fun fuel => ?_, fun right => ?_⟩
  · cases fuel <;> rfl
  · obtain ⟨_, _, found, -⟩ := right.direct ⟨[], []⟩ rfl
    cases found

end Jst.Verif.TreeListings
