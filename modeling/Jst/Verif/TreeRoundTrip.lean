import Jst.Verif.TreeObjects
/-!
# Writing a tree and reading it back

A tree that is written and read again keeps its names and hashes. The types come back as they were
exactly if no two names with one hash had different types, since the parser gives all names of a
hash the type of the first.
-/
namespace Jst.Verif.TreeRoundTrip

open Jst.SortedMap Jst.Tree Jst.Verif.TreeOverlay

variable {Hash : Type} [DecidableEq Hash]

/-- A map from file names to objects: a type and the hash of the content. -/
structure Directory (Hash : Type) where
  items : List (Str × Tree.ObjectType × Hash)
  ordered : Ascending items
  plain : ∀ item ∈ items, 0x2f ∉ item.1

/-- The tree entries of a directory. -/
def Directory.entries (directory : Directory Hash) : TreeEntries Hash :=
  directory.items.map fun (name, object) => (name, entryInfo object)

/-- All names of a hash have one type. -/
def Directory.Uniform (directory : Directory Hash) : Prop :=
  ∀ left ∈ directory.items, ∀ right ∈ directory.items, left.2.2 = right.2.2 → left.2.1 = right.2.1

variable (directory : Directory Hash)

section
omit [DecidableEq Hash]

theorem entries_ascending : Ascending directory.entries :=
  mapValues_ascending entryInfo directory.ordered

theorem entries_plain : ∀ item ∈ directory.entries, 0x2f ∉ item.1 := by
  intro item member
  obtain ⟨source, present, same⟩ := mem_map.mp member
  rw [← same]
  exact directory.plain source present

end

theorem entryIn_written (name : Str) :
    entryIn (serializeGitTree directory.entries) name = find name directory.items := by
  rw [entryIn_serializeGitTree (entries_ascending directory) (entries_plain directory)]
  have found := find_mapValues entryInfo name directory.items
  rw [show find name directory.entries = _ from found, Option.map_map]
  exact Option.map_id' ..

theorem find_readBack (name : Str) : find name (parseGitTree (serializeGitTree directory.entries)) =
      (find name directory.items).bind fun object =>
        (firstType (serializeGitTree directory.entries) object.2).map fun type =>
          entryInfo (type, object.2) := by
  rw [find_parseGitTree (distinct_serializeGitTree (entries_ascending directory)
    (entries_plain directory)), misreadIn, entryIn_written, Option.map_bind]
  congr 1
  funext object
  exact Option.map_map ..

theorem type_of_firstType {hash : Hash} {type : Tree.ObjectType}
    (first : firstType (serializeGitTree directory.entries) hash = some type) :
    ∃ item ∈ directory.items, item.2 = (type, hash) := by
  obtain ⟨entry, present, typed⟩ := map_eq_some_iff.mp first
  have hashed : entry.hash = hash := by simpa using List.find?_some present
  obtain ⟨info, member, infoType, infoHash⟩ := (mem_serializeGitTree (entries_ascending directory)
    (entries_plain directory) entry).mp (List.mem_of_find?_eq_some present)
  obtain ⟨item, inside, same⟩ := mem_map.mp member
  have stored : entryInfo item.2 = info := congrArg snd same
  refine ⟨item, inside, Prod.ext ?_ ?_⟩
  · rw [← typed, ← infoType, ← stored]
    rfl
  · rw [← hashed, ← infoHash, ← stored]
    rfl

theorem firstType_isSome {item : Str × Tree.ObjectType × Hash} (member : item ∈ directory.items) :
    (firstType (serializeGitTree directory.entries) item.2.2).isSome := by
  have written := (mem_serializeGitTree (entries_ascending directory) (entries_plain directory)
    ⟨item.1, item.2.1, item.2.2⟩).mpr
      ⟨entryInfo item.2, mem_map.mpr ⟨item, member, rfl⟩, rfl, rfl⟩
  rw [firstType, Option.isSome_map, List.find?_isSome]
  exact ⟨_, written, by simp⟩

/-- Reading back the git tree that is written for a directory yields the directory, with the type of
every name, if and only if all names of a hash have one type. -/
theorem readBack_iff_uniform (directory : Directory Hash) :
    parseGitTree (serializeGitTree directory.entries) = directory.entries ↔ directory.Uniform := by
  constructor
  · intro same left leftIn right rightIn hashes
    have typed : ∀ item ∈ directory.items,
        firstType (serializeGitTree directory.entries) item.2.2 = some item.2.1 := by
      intro item member
      have found := find_of_mem directory.ordered member
      have read := find_readBack directory item.1
      rw [same, found, bind_some] at read
      have kept := find_mapValues entryInfo item.1 directory.items
      rw [show find item.1 directory.entries = _ from kept, found] at read
      obtain ⟨type, first, equal⟩ := map_eq_some_iff.mp read.symm
      rw [first, show type = item.2.1 from congrArg ObjectInfo.type equal]
    have leftTyped := typed left leftIn
    rw [hashes, typed right rightIn] at leftTyped
    exact (some.inj leftTyped).symm
  · intro uniform
    refine ext_find (parseGitTree_ascending _) (entries_ascending directory) fun name => ?_
    rw [find_readBack]
    have kept := find_mapValues entryInfo name directory.items
    rw [show find name directory.entries = _ from kept]
    cases found : find name directory.items with
    | none => rfl
    | some object =>
      have member := mem_of_find found
      obtain ⟨type, first⟩ := isSome_iff_exists.mp (firstType_isSome directory member)
      obtain ⟨item, inside, same⟩ := type_of_firstType directory first
      have typed : type = object.1 := by
        have hashed : item.2.2 = object.2 := by rw [same]
        rw [← uniform item inside (name, object) member hashed]
        rw [same]
      rw [bind_some, first, typed]
      rfl

/-- A file and an executable with one content. -/
def twins : Directory Nat where
  items := [(lit "b", .file, 1), (lit "c", .executable, 1)]
  ordered := by decide
  plain := by decide

theorem twins_not_readBack :
    parseGitTree (serializeGitTree twins.entries) ≠ twins.entries := by
  decide

end Jst.Verif.TreeRoundTrip
