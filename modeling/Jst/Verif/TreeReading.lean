import Mathlib.Data.Option.Basic
import Jst.Execution.TreeReader
import Jst.Data.Loops
/-!
# What reading a tree finds

The entries of a tree are determined by its digest. Reading its direct entries finds none but these,
and all of them if the tree can be read; a store that has more can read more.
-/
namespace Jst.Verif.TreeReading

open Tree Execution

variable {Hash : Type} [DecidableEq Hash] {formats : Formats Hash} {source more : Store Hash}
  {digest : ArtifactDigest Hash}

/-- The objects that are the entries of the tree with a digest. -/
def entries (formats : Formats Hash) (digest : ArtifactDigest Hash) : List (ObjectInfo Hash) :=
  if formats.native then
    match formats.gitTree (formats.content digest) with
    | none => []
    | some tree => tree.filterMap fun entry => entry.type.map fun type => entryInfo (type, entry.hash)
  else
    match formats.directory (formats.content digest) with
    | none => []
    | some directory =>
      (directory.files.filterMap fun (_, hash, isExecutable) => hash.map fun hash =>
        directoryInfo (if isExecutable then .executable else .file) hash) ++
      (directory.symlinks.map fun (_, target) =>
        directoryInfo .symlink (formats.hashFile target)) ++
      (directory.directories.filterMap fun (_, hash) => hash.map fun hash =>
        directoryInfo .tree hash)

/-- The tree with a digest can be read. -/
def readsTree (formats : Formats Hash) (source : Store Hash) (digest : ArtifactDigest Hash) : Bool :=
  if formats.native then (formats.readGitTree source digest).isSome
  else (formats.readDirectory source digest).isSome

theorem mem_gitInfos (tree : GitTree Hash) (info : ObjectInfo Hash) :
    info ∈ (gitInfos (readDirectTree tree)).map snd ↔
      ∃ entry ∈ tree, info = entryInfo (entry.type, entry.hash) := by
  simp only [gitInfos, readDirectTree, mem_map, List.mem_flatMap, Prod.exists, Grouping.mem_group]
  constructor
  · rintro ⟨_, _, ⟨hash, _, ⟨rfl, -⟩, name, type, inside, same⟩, rfl⟩
    obtain ⟨-, rfl⟩ := Prod.mk.inj same
    simp only [Grouping.select, mem_map, mem_filter, decide_eq_true_eq] at inside
    obtain ⟨⟨_, _⟩, ⟨⟨entry, member, found⟩, rfl⟩, named⟩ := inside
    simp only [Prod.mk.injEq] at found named
    obtain ⟨rfl, rfl, rfl⟩ := found
    obtain ⟨rfl, rfl⟩ := named
    exact ⟨entry, member, rfl⟩
  · rintro ⟨entry, member, rfl⟩
    have inside : (entry.name, entry.type) ∈ Grouping.select entry.hash
        (tree.map fun entry => (entry.hash, entry.name, entry.type)) := by
      simp only [Grouping.select, mem_map, mem_filter, decide_eq_true_eq]
      exact ⟨_, ⟨⟨entry, member, rfl⟩, rfl⟩, rfl⟩
    exact ⟨entry.name, _, ⟨entry.hash, _, ⟨rfl, List.ne_nil_of_mem inside⟩, _, _, inside, rfl⟩, rfl⟩

omit [DecidableEq Hash] in
variable {infos : List (Str × ObjectInfo Hash)}

variable {directory : Directory Hash}

theorem directoryInfos_entries (compatible : formats.native = false)
    (parsed : formats.directory (formats.content digest) = some directory)
    (valid : formats.directoryInfos directory = some infos) :
    infos.map snd = entries formats digest := by
  simp only [Formats.directoryInfos, bind_eq_bind, bind_eq_some_iff, pure_def, some.injEq] at valid
  obtain ⟨files, filesRead, directories, directoriesRead, rfl⟩ := valid
  rw [← Loops.filterMap_of_mapM filesRead, ← Loops.filterMap_of_mapM directoriesRead]
  simp only [entries, compatible, false_eq_true, if_false, parsed, map_append,
    List.map_filterMap, map_map, Option.map_map]
  rfl

omit [DecidableEq Hash] in
theorem mem_flatTreeWalker {raw : List (RawEntry Hash)} {tree : GitTree Hash}
    (walked : flatTreeWalker raw = some tree) (info : ObjectInfo Hash) :
    (∃ entry ∈ tree, info = entryInfo (entry.type, entry.hash)) ↔
      info ∈ raw.filterMap fun entry => entry.type.map fun type =>
        entryInfo (type, entry.hash) := by
  rw [← Loops.filterMap_of_mapM walked]
  simp only [List.mem_filterMap, map_eq_some_iff]
  constructor
  · rintro ⟨_, ⟨entry, inside, type, supported, rfl⟩, rfl⟩
    exact ⟨entry, inside, type, supported, rfl⟩
  · rintro ⟨entry, inside, type, supported, rfl⟩
    exact ⟨_, ⟨entry, inside, type, supported, rfl⟩, rfl⟩

variable {groups : GroupedEntries Hash}

theorem readGitTree_eq_some : formats.readGitTree source digest = some groups ↔
      digest ∈ source ∧ ∃ raw tree, formats.gitTree (formats.content digest) = some raw ∧
        flatTreeWalker raw = some tree ∧ groups = readDirectTree tree ∧
        formats.checkSymlinks source (symlinkDigests groups) = true := by
  unfold Formats.readGitTree
  by_cases stored : digest ∈ source
  · rw [guard, if_pos stored]
    simp only [pure_def, bind_eq_bind, bind_some, bind_eq_some_iff, stored, true_and]
    constructor
    · rintro ⟨raw, parsed, tree, walked, final⟩
      by_cases checked : formats.checkSymlinks source (symlinkDigests (readDirectTree tree)) = true
      · simp only [guard, checked, if_true, pure_def, some.injEq] at final
        obtain ⟨-, -, rfl⟩ := final
        exact ⟨raw, tree, parsed, walked, rfl, checked⟩
      · simp [guard, checked] at final
    · rintro ⟨raw, tree, parsed, walked, rfl, checked⟩
      exact ⟨raw, parsed, tree, walked, by simp [guard, checked]⟩
  · simp [guard, stored]

theorem mem_readGitTree (native : formats.native = true)
    (reads : formats.readGitTree source digest = some groups) (info : ObjectInfo Hash) :
    info ∈ (gitInfos groups).map snd ↔ info ∈ entries formats digest := by
  obtain ⟨-, raw, tree, parsed, walked, rfl, -⟩ := readGitTree_eq_some.mp reads
  rw [mem_gitInfos, mem_flatTreeWalker walked]
  simp only [entries, native, if_true, parsed]

theorem readDirectory_eq_some : formats.readDirectory source digest = some directory ↔
      digest ∈ source ∧ formats.directory (formats.content digest) = some directory := by
  unfold Formats.readDirectory
  by_cases stored : digest ∈ source <;> simp [guard, stored]

variable {info : ObjectInfo Hash}

theorem of_mem_read (result : formats.readDirectTreeEntries source digest = some infos)
    (member : info ∈ infos.map snd) :
    info ∈ entries formats digest ∧ readsTree formats source digest = true := by
  unfold Formats.readDirectTreeEntries at result
  unfold readsTree
  by_cases native : formats.native = true
  · rw [if_pos native] at result ⊢
    cases reads : formats.readGitTree source digest with
    | none => simp [reads] at result; simp [result] at member
    | some groups =>
      simp only [reads, some.injEq] at result
      subst result
      exact ⟨(mem_readGitTree native reads info).mp member, rfl⟩
  · rw [if_neg native] at result ⊢
    cases reads : formats.readDirectory source digest with
    | none => simp [reads] at result; simp [result] at member
    | some directory =>
      simp only [reads] at result
      rw [directoryInfos_entries (by simpa using native) (readDirectory_eq_some.mp reads).2 result]
        at member
      exact ⟨member, rfl⟩

theorem mem_of_reads (readable : readsTree formats source digest = true)
    (result : formats.readDirectTreeEntries source digest = some infos)
    (member : info ∈ entries formats digest) : info ∈ infos.map snd := by
  unfold Formats.readDirectTreeEntries at result
  unfold readsTree at readable
  by_cases native : formats.native = true
  · rw [if_pos native] at result readable
    obtain ⟨groups, reads⟩ := isSome_iff_exists.mp readable
    simp only [reads, some.injEq] at result
    subst result
    exact (mem_readGitTree native reads info).mpr member
  · rw [if_neg native] at result readable
    obtain ⟨directory, reads⟩ := isSome_iff_exists.mp readable
    simp only [reads] at result
    rw [directoryInfos_entries (by simpa using native) (readDirectory_eq_some.mp reads).2 result]
    exact member

theorem stored_of_reads (readable : readsTree formats source digest = true) : digest ∈ source := by
  unfold readsTree at readable
  by_cases native : formats.native = true
  · rw [if_pos native] at readable
    obtain ⟨groups, reads⟩ := isSome_iff_exists.mp readable
    exact (readGitTree_eq_some.mp reads).1
  · rw [if_neg native] at readable
    obtain ⟨directory, reads⟩ := isSome_iff_exists.mp readable
    exact (readDirectory_eq_some.mp reads).1

theorem readsTree_mono (larger : source ⊆ more)
    (readable : readsTree formats source digest = true) : readsTree formats more digest = true := by
  unfold readsTree at readable ⊢
  by_cases native : formats.native = true
  · rw [if_pos native] at readable ⊢
    obtain ⟨groups, reads⟩ := isSome_iff_exists.mp readable
    obtain ⟨stored, raw, tree, parsed, walked, same, checked⟩ := readGitTree_eq_some.mp reads
    have still : formats.checkSymlinks more (symlinkDigests groups) = true := by
      simp only [Formats.checkSymlinks, List.all_eq_true, and_eq_true,
        decide_eq_true_eq] at checked ⊢
      exact fun link inside => ⟨larger (checked link inside).1, (checked link inside).2⟩
    exact isSome_iff_exists.mpr
      ⟨groups, readGitTree_eq_some.mpr ⟨larger stored, raw, tree, parsed, walked, same, still⟩⟩
  · rw [if_neg native] at readable ⊢
    obtain ⟨directory, reads⟩ := isSome_iff_exists.mp readable
    obtain ⟨stored, parsed⟩ := readDirectory_eq_some.mp reads
    exact isSome_iff_exists.mpr
      ⟨directory, readDirectory_eq_some.mpr ⟨larger stored, parsed⟩⟩

theorem symlink_mem_entries {link : ArtifactDigest Hash}
    (member : link ∈ formats.symlinkBlobs source digest) : readsTree formats source digest = true ∧
      ∃ info ∈ entries formats digest, info.type = .symlink ∧ info.digest = link := by
  unfold Formats.symlinkBlobs at member
  by_cases native : formats.native = true
  · simp [native] at member
  · rw [if_neg native] at member
    cases reads : formats.readDirectory source digest with
    | none => simp [reads] at member
    | some directory =>
      simp only [reads, mem_map] at member
      obtain ⟨⟨name, target⟩, inside, rfl⟩ := member
      refine ⟨by simp [readsTree, native, reads],
        directoryInfo .symlink (formats.hashFile target), ?_, rfl, rfl⟩
      have parsed := (readDirectory_eq_some.mp reads).2
      simp only [entries, if_neg native, parsed]
      exact mem_append_left _ (mem_append_right _
        (mem_map.mpr ⟨_, inside, rfl⟩))

end Jst.Verif.TreeReading
