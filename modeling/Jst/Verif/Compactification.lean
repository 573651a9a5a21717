import Jst.Data.Loops
import Jst.Storage.Compactifier
/-!
# Compactification loses nothing

An object is removed where a large entry takes its place. Large entries as they are written by a
split list chunks, which are left whole by every later split, and belong to objects that are not
left whole; so no part of an entry is ever removed, and every object stays retrievable. This takes
that no large entry fails to be stored: a split ignores that failure, and the object is removed
without an entry.
-/
namespace Jst.Verif.Compactification

open Storage Storage.Compactifier
open Option (or_eq_some_iff)

variable {Hash : Type}

variable {parts : List Hash}

/-! ## What can be retrieved -/

/-- A part that is found as a file or as an executable. -/
def found (cas : LocalCas Hash) (part : Hash) : Option Str :=
  (cas.objects .file part).or (cas.objects .executable part)

/-- The content that is spliced from parts. -/
def spliced (cas : LocalCas Hash) (parts : List Hash) : Option Str :=
  (parts.mapM (found cas)).map List.flatten

/-- The content of an object, read directly or spliced. -/
def retrieve (cas : LocalCas Hash) (type : LargeType) (hash : Hash) : Option Str :=
  (cas.largeObject type hash).or ((cas.entries type hash).bind (spliced cas))

/-- Objects are stored under their hashes. -/
def Addressed (hashes : Hashes Hash) (cas : LocalCas Hash) : Prop :=
  ∀ type hash content, cas.objects type hash = some content →
    hashes.ofLarge type.large content = hash

/-- A large entry as a split writes it: its parts are stored and left whole, the object is not. -/
structure SplitEntry (hashes : Hashes Hash) (gearTable : UInt8 → UInt64) (cas : LocalCas Hash)
    (type : LargeType) (hash : Hash) (parts : List Hash) (content : Str) : Prop where
  hash : hashes.ofLarge type content = hash
  several : 2 ≤ (FileChunker.chunks gearTable content).length
  spliced : spliced cas parts = some content
  whole : ∀ part ∈ parts, ∀ chunk, hashes.blob chunk = part →
    (FileChunker.chunks gearTable chunk).length < 2

/-- The state of a generation: objects under their hashes, and large entries as a split writes them.
-/
structure WellFormed (hashes : Hashes Hash) (gearTable : UInt8 → UInt64) (cas : LocalCas Hash) :
    Prop where
  addressed : Addressed hashes cas
  entries : ∀ type hash parts, cas.entries type hash = some parts →
    ∃ content, SplitEntry hashes gearTable cas type hash parts content

/-- Nothing is lost from one state to a later one. -/
structure Kept (before after : LocalCas Hash) : Prop where
  retrieve : ∀ type hash content, retrieve before type hash = some content →
    retrieve after type hash = some content
  entries : ∀ type hash parts, before.entries type hash = some parts →
    after.entries type hash = some parts
  parts : ∀ type hash parts, before.entries type hash = some parts → ∀ part ∈ parts,
    ∀ storage, storage.large = .file → ∀ content, before.objects storage part = some content →
      after.objects storage part = some content

theorem Kept.refl (cas : LocalCas Hash) : Kept cas cas :=
  ⟨fun _ _ _ same => same, fun _ _ _ same => same, fun _ _ _ _ _ _ _ _ _ same => same⟩

theorem Kept.trans {first second third : LocalCas Hash} (front : Kept first second)
    (back : Kept second third) : Kept first third where
  retrieve type hash content was := back.retrieve type hash content
    (front.retrieve type hash content was)
  entries type hash parts was := back.entries type hash parts (front.entries type hash parts was)
  parts type hash parts was part member storage isFile content stored :=
    back.parts type hash parts (front.entries type hash parts was) part member storage isFile content
      (front.parts type hash parts was part member storage isFile content stored)

section Reading

variable {hashes : Hashes Hash} {gearTable : UInt8 → UInt64} {cas before after : LocalCas Hash}

variable {type : LargeType} {hash : Hash}

theorem ofLarge_injective {left right : Str}
    (same : hashes.ofLarge type left = hashes.ofLarge type right) : left = right := by
  cases type with
  | file => exact hashes.blob_injective same
  | tree => exact hashes.tree_injective same

variable {content : Str}

theorem largeObject_of_objects (addressed : Addressed hashes cas) {storage : StorageType}
    (stored : cas.objects storage hash = some content) :
    cas.largeObject storage.large hash = some content := by
  cases storage with
  | tree => exact stored
  | file => exact or_eq_some_iff.mpr (.inl stored)
  | executable =>
    cases plain : cas.objects .file hash with
    | none => exact or_eq_some_iff.mpr (.inr ⟨plain, stored⟩)
    | some other =>
      have same : hashes.blob other = hashes.blob content :=
        (addressed .file hash other plain).trans (addressed .executable hash content stored).symm
      rw [hashes.blob_injective same] at plain
      exact or_eq_some_iff.mpr (.inl plain)

theorem objects_of_largeObject {content : Str} (stored : cas.largeObject type hash = some content) :
    ∃ storage : StorageType, storage.large = type ∧ cas.objects storage hash = some content := by
  cases type with
  | tree => exact ⟨.tree, rfl, stored⟩
  | file =>
    cases or_eq_some_iff.mp stored with
    | inl plain => exact ⟨.file, rfl, plain⟩
    | inr executable => exact ⟨.executable, rfl, executable.2⟩

theorem ofLarge_of_largeObject (addressed : Addressed hashes cas)
    (stored : cas.largeObject type hash = some content) : hashes.ofLarge type content = hash := by
  obtain ⟨storage, rfl, object⟩ := objects_of_largeObject stored
  exact addressed storage hash content object

theorem found_mono (addressed : Addressed hashes after) {part : Hash}
    (kept : ∀ storage, storage.large = .file → ∀ content,
      before.objects storage part = some content → after.objects storage part = some content)
    (was : found before part = some content) : found after part = some content := by
  obtain ⟨storage, isFile, object⟩ := @objects_of_largeObject _ before .file part content was
  have stays := largeObject_of_objects addressed (kept storage isFile content object)
  rw [isFile] at stays
  exact stays

theorem spliced_mono (addressed : Addressed hashes after)
    (kept : ∀ part ∈ parts, ∀ storage, storage.large = .file → ∀ content,
      before.objects storage part = some content → after.objects storage part = some content)
    (was : spliced before parts = some content) : spliced after parts = some content := by
  obtain ⟨chunks, all, rfl⟩ := map_eq_some_iff.mp was
  have same : parts.mapM (found after) = some chunks := by
    refine Loops.mapM_eq_some.mpr ?_
    have calls := Loops.mapM_eq_some.mp all
    clear all was
    induction calls with
    | nil => exact .nil
    | cons here _ step =>
      exact .cons (found_mono addressed (kept _ mem_cons_self) here)
        (step (forall_mem_cons.mp kept).2)
  rw [spliced, same]
  rfl

theorem retrieve_eq (addressed : Addressed hashes cas) (own : hashes.ofLarge type content = hash)
    (stored : cas.largeObject type hash = some content ∨
      ∃ parts, cas.entries type hash = some parts ∧ spliced cas parts = some content) :
    retrieve cas type hash = some content := by
  cases plain : cas.largeObject type hash with
  | some other =>
    have same := (ofLarge_of_largeObject addressed plain).trans own.symm
    rw [retrieve, plain, ofLarge_injective same]
    rfl
  | none =>
    rw [plain] at stored
    cases stored with
    | inl impossible => cases impossible
    | inr entry =>
      obtain ⟨parts, listed, content_eq⟩ := entry
      rw [retrieve, plain, listed]
      exact content_eq

theorem kept_of (wellFormed : WellFormed hashes gearTable before) (addressed : Addressed hashes after)
    (entries : ∀ type hash parts, before.entries type hash = some parts →
      after.entries type hash = some parts)
    (parts : ∀ type hash parts, before.entries type hash = some parts → ∀ part ∈ parts,
      ∀ storage, storage.large = .file → ∀ content, before.objects storage part = some content →
        after.objects storage part = some content)
    (objects : ∀ storage hash content, before.objects storage hash = some content →
      after.objects storage hash = some content ∨
        ∃ parts, before.entries storage.large hash = some parts) : Kept before after where
  entries := entries
  parts := parts
  retrieve := by
    intro type hash content was
    have listed : ∀ list, before.entries type hash = some list →
        ∃ other, hashes.ofLarge type other = hash ∧ retrieve after type hash = some other := by
      intro list entry
      obtain ⟨other, isSplit⟩ := wellFormed.entries type hash list entry
      exact ⟨other, isSplit.hash, retrieve_eq addressed isSplit.hash (.inr ⟨list,
        entries type hash list entry, spliced_mono addressed (parts type hash list entry)
          isSplit.spliced⟩)⟩
    cases or_eq_some_iff.mp was with
    | inl direct =>
      have own := ofLarge_of_largeObject wellFormed.addressed direct
      obtain ⟨storage, rfl, object⟩ := objects_of_largeObject direct
      cases objects storage hash content object with
      | inl stays =>
        exact retrieve_eq addressed own (.inl (largeObject_of_objects addressed stays))
      | inr entry =>
        obtain ⟨list, entry⟩ := entry
        obtain ⟨other, hash_eq, retrieved⟩ := listed list entry
        rw [ofLarge_injective (own.trans hash_eq.symm)]
        exact retrieved
    | inr fromEntry =>
      obtain ⟨list, entry, content_eq⟩ := bind_eq_some_iff.mp fromEntry.2
      obtain ⟨other, isSplit⟩ := wellFormed.entries type hash list entry
      have same : content = other := some.inj (content_eq.symm.trans isSplit.spliced)
      exact retrieve_eq addressed (same ▸ isSplit.hash) (.inr ⟨list, entries type hash list entry,
        spliced_mono addressed (parts type hash list entry) content_eq⟩)

theorem wellFormed_of (wellFormed : WellFormed hashes gearTable before)
    (addressed : Addressed hashes after)
    (parts : ∀ type hash parts, before.entries type hash = some parts → ∀ part ∈ parts,
      ∀ storage, storage.large = .file → ∀ content, before.objects storage part = some content →
        after.objects storage part = some content)
    (entries : ∀ type hash parts, after.entries type hash = some parts →
      before.entries type hash = some parts ∨
        ∃ content, SplitEntry hashes gearTable after type hash parts content) :
    WellFormed hashes gearTable after where
  addressed := addressed
  entries := by
    intro type hash list entry
    cases entries type hash list entry with
    | inr fresh => exact fresh
    | inl old =>
      obtain ⟨content, isSplit⟩ := wellFormed.entries type hash list old
      exact ⟨content,
        { hash := isSplit.hash
          several := isSplit.several
          spliced := spliced_mono addressed (parts type hash list old) isSplit.spliced
          whole := isSplit.whole }⟩

/-- A step that loses nothing and leaves a well-formed state. -/
def Preserves (hashes : Hashes Hash) (gearTable : UInt8 → UInt64) (before after : LocalCas Hash) :
    Prop :=
  WellFormed hashes gearTable before → Kept before after ∧ WellFormed hashes gearTable after

theorem Preserves.refl (cas : LocalCas Hash) : Preserves hashes gearTable cas cas :=
  fun wellFormed => ⟨Kept.refl cas, wellFormed⟩

theorem Preserves.trans {first second third : LocalCas Hash}
    (front : Preserves hashes gearTable first second)
    (back : Preserves hashes gearTable second third) : Preserves hashes gearTable first third := by
  intro wellFormed
  have here := front wellFormed
  have later := back here.2
  exact ⟨here.1.trans later.1, later.2⟩

end Reading

/-! ## Changes of a generation -/

section Changes

variable [DecidableEq Hash] {hashes : Hashes Hash} {gearTable : UInt8 → UInt64}

variable {cas : LocalCas Hash}

theorem objects_setObject (cas : LocalCas Hash) (type other : StorageType) (hash key : Hash)
    (object : Option Str) : (cas.setObject type hash object).objects other key =
      if other = type ∧ key = hash then object else cas.objects other key := by
  unfold LocalCas.setObject
  by_cases sameType : other = type
  · by_cases sameKey : key = hash
    · simp [sameType, sameKey]
    · simp [sameType, sameKey]
  · simp [sameType]

theorem entries_setEntry (cas : LocalCas Hash) (type other : LargeType) (hash key : Hash)
    (parts : List Hash) : (cas.setEntry type hash parts).entries other key =
      if other = type ∧ key = hash then some parts else cas.entries other key := by
  unfold LocalCas.setEntry
  by_cases sameType : other = type
  · by_cases sameKey : key = hash
    · simp [sameType, sameKey]
    · simp [sameType, sameKey]
  · simp [sameType]

/-- Objects are added under their hashes. -/
structure Grown (hashes : Hashes Hash) (before after : LocalCas Hash) : Prop where
  entries : after.entries = before.entries
  objects : ∀ storage hash content, before.objects storage hash = some content →
    after.objects storage hash = some content
  addressed : Addressed hashes before → Addressed hashes after

section
omit [DecidableEq Hash]

theorem Grown.refl (cas : LocalCas Hash) : Grown hashes cas cas :=
  ⟨rfl, fun _ _ _ same => same, fun addressed => addressed⟩

theorem Grown.trans {first second third : LocalCas Hash} (front : Grown hashes first second)
    (back : Grown hashes second third) : Grown hashes first third where
  entries := back.entries.trans front.entries
  objects storage hash content stored :=
    back.objects storage hash content (front.objects storage hash content stored)
  addressed addressed := back.addressed (front.addressed addressed)

theorem Grown.preserves {before after : LocalCas Hash} (grown : Grown hashes before after) :
    Preserves hashes gearTable before after := by
  intro wellFormed
  have addressed := grown.addressed wellFormed.addressed
  constructor
  · refine kept_of wellFormed addressed ?_ ?_ ?_
    · intro type hash parts entry
      rw [grown.entries]
      exact entry
    · intro _ _ _ _ part _ storage _ content stored
      exact grown.objects storage part content stored
    · intro storage hash content stored
      exact .inl (grown.objects storage hash content stored)
  · refine wellFormed_of wellFormed addressed ?_ ?_
    · intro _ _ _ _ part _ storage _ content stored
      exact grown.objects storage part content stored
    · intro type hash parts entry
      rw [grown.entries] at entry
      exact .inl entry

end

theorem setEntry_preserves {type : LargeType} {hash : Hash} {content : Str}
    (absent : cas.entries type hash = none)
    (isSplit : SplitEntry hashes gearTable cas type hash parts content) :
    Preserves hashes gearTable cas (cas.setEntry type hash parts) := by
  intro wellFormed
  have addressed : Addressed hashes (cas.setEntry type hash parts) := wellFormed.addressed
  constructor
  · refine kept_of wellFormed addressed ?_ ?_ ?_
    · intro other key list entry
      rw [entries_setEntry, if_neg]
      · exact entry
      · rintro ⟨rfl, rfl⟩
        rw [absent] at entry
        cases entry
    · intro _ _ _ _ _ _ _ _ _ stored
      exact stored
    · intro _ _ _ stored
      exact .inl stored
  · refine wellFormed_of wellFormed addressed ?_ ?_
    · intro _ _ _ _ _ _ _ _ _ stored
      exact stored
    · intro other key list entry
      rw [entries_setEntry] at entry
      split at entry
      · next same =>
        obtain ⟨rfl, rfl⟩ := same
        cases entry
        exact .inr ⟨content, isSplit.hash, isSplit.several, isSplit.spliced, isSplit.whole⟩
      · exact .inl entry

omit [DecidableEq Hash] in
theorem not_part_of_entry (wellFormed : WellFormed hashes gearTable cas) {type : LargeType}
    {hash owner : Hash} {own : List Hash} (entry : cas.entries .file hash = some own)
    (other : cas.entries type owner = some parts) : hash ∉ parts := by
  intro member
  obtain ⟨content, isSplit⟩ := wellFormed.entries .file hash own entry
  obtain ⟨_, otherSplit⟩ := wellFormed.entries type owner parts other
  have whole := otherSplit.whole hash member content isSplit.hash
  have several := isSplit.several
  omega

theorem remove_preserves {storage : StorageType} {hash : Hash} {own : List Hash}
    (entry : cas.entries storage.large hash = some own) :
    Preserves hashes gearTable cas (cas.setObject storage hash none) := by
  intro wellFormed
  have addressed : Addressed hashes (cas.setObject storage hash none) := by
    intro other key content stored
    rw [objects_setObject] at stored
    split at stored
    · cases stored
    · exact wellFormed.addressed other key content stored
  have parts : ∀ type owner parts, cas.entries type owner = some parts → ∀ part ∈ parts,
      ∀ other : StorageType, other.large = .file → ∀ content,
        cas.objects other part = some content →
        (cas.setObject storage hash none).objects other part = some content := by
    intro type owner parts listed part member other isFile content stored
    rw [objects_setObject, if_neg]
    · exact stored
    · rintro ⟨rfl, rfl⟩
      rw [isFile] at entry
      exact not_part_of_entry wellFormed entry listed member
  constructor
  · refine kept_of wellFormed addressed (fun _ _ _ same => same) parts ?_
    intro other key content stored
    rw [objects_setObject]
    split
    · next same =>
      obtain ⟨rfl, rfl⟩ := same
      exact .inr ⟨own, entry⟩
    · exact .inl stored
  · exact wellFormed_of wellFormed addressed parts fun _ _ _ same => .inl same

end Changes

/-! ## Tasks -/

section Tasks

variable [DecidableEq Hash] {hashes : Hashes Hash} {gearTable : UInt8 → UInt64}

variable {faults : Faults Hash}

theorem storeBlob_grown (faults : Faults Hash) (content : Str) (cas : LocalCas Hash) :
    Grown hashes cas (cas.storeBlob hashes faults content).2 := by
  unfold LocalCas.storeBlob
  simp only
  split
  · exact Grown.refl cas
  · next absent =>
    split
    · exact Grown.refl cas
    · refine ⟨rfl, ?_, ?_⟩
      · intro storage hash other stored
        rw [objects_setObject, if_neg]
        · exact stored
        · rintro ⟨rfl, rfl⟩
          rw [stored] at absent
          exact absent rfl
      · intro addressed storage hash other stored
        rw [objects_setObject] at stored
        split at stored
        · next same =>
          obtain ⟨rfl, rfl⟩ := same
          cases stored
          rfl
        · exact addressed storage hash other stored

theorem storeBlob_found {content : Str} {cas : LocalCas Hash} {part : Hash}
    (addressed : Addressed hashes cas)
    (stored : (cas.storeBlob hashes faults content).1 = some part) : part = hashes.blob content ∧
      found (cas.storeBlob hashes faults content).2 part = some content := by
  have objects : part = hashes.blob content ∧
      (cas.storeBlob hashes faults content).2.objects .file part = some content := by
    unfold LocalCas.storeBlob at stored ⊢
    simp only at stored ⊢
    split at stored
    · next available =>
      cases stored
      obtain ⟨other, there⟩ := isSome_iff_exists.mp available
      have same := hashes.blob_injective (addressed .file _ other there)
      rw [if_pos available, ← same]
      exact ⟨rfl, same ▸ there⟩
    · next absent =>
      split at stored
      · cases stored
      · next works =>
        cases stored
        rw [if_neg absent, if_neg works]
        exact ⟨rfl, by simp [objects_setObject]⟩
  exact ⟨objects.1, or_eq_some_iff.mpr (.inl objects.2)⟩

theorem storeParts_spec (faults : Faults Hash) {chunks : List Str} {cas : LocalCas Hash}
    (addressed : Addressed hashes cas) : Grown hashes cas (cas.storeParts hashes faults chunks).2 ∧
    ∀ parts, (cas.storeParts hashes faults chunks).1 = some parts → parts = chunks.map hashes.blob ∧
      parts.mapM (found (cas.storeParts hashes faults chunks).2) = some chunks := by
  induction chunks generalizing cas with
  | nil =>
    refine ⟨Grown.refl cas, ?_⟩
    intro parts stored
    cases stored
    exact ⟨rfl, rfl⟩
  | cons chunk rest step =>
    have grown := @storeBlob_grown _ _ hashes faults chunk cas
    unfold LocalCas.storeParts
    cases stored : cas.storeBlob hashes faults chunk with
    | mk result next =>
      have later := @step next (by
        have all := grown.addressed addressed
        rw [stored] at all
        exact all)
      rw [stored] at grown
      cases result with
      | none => exact ⟨grown, fun _ impossible => by cases impossible⟩
      | some part =>
        have here := storeBlob_found addressed (congrArg fst stored)
        rw [stored] at here
        refine ⟨grown.trans later.1, ?_⟩
        intro parts all
        obtain ⟨others, rest_eq, rfl⟩ := map_eq_some_iff.mp all
        have tail := later.2 others rest_eq
        constructor
        · rw [map_cons, ← here.1, ← tail.1]
        · have first : found (next.storeParts hashes faults rest).2 part = some chunk :=
            found_mono (later.1.addressed (grown.addressed addressed))
              (fun storage _ content => later.1.objects storage part content) here.2
          simp only [mapM_cons, first, tail.2, pure_def, bind_eq_bind, bind_some]

theorem split_spec {type : LargeType} {hash : Hash} {cas : LocalCas Hash}
    (works : cas.entries type hash = none → ∀ content, cas.largeObject type hash = some content →
      2 ≤ (FileChunker.chunks gearTable content).length → faults.entry = false)
    (wellFormed : WellFormed hashes gearTable cas) :
    (Kept cas (cas.split hashes gearTable faults type hash).2 ∧
      WellFormed hashes gearTable (cas.split hashes gearTable faults type hash).2) ∧
    ∀ parts, (cas.split hashes gearTable faults type hash).1 = some parts → 2 ≤ parts.length →
      ∃ own, (cas.split hashes gearTable faults type hash).2.entries type hash = some own := by
  unfold LocalCas.split
  cases entry : cas.entries type hash with
  | some own => exact ⟨Preserves.refl cas wellFormed, fun _ _ _ => ⟨own, entry⟩⟩
  | none =>
    cases stored : cas.largeObject type hash with
    | none => exact ⟨Preserves.refl cas wellFormed, fun _ impossible => by cases impossible⟩
    | some content =>
      have parts_spec := @storeParts_spec _ _ hashes faults
        (FileChunker.chunks gearTable content) cas wellFormed.addressed
      simp only
      cases result : cas.storeParts hashes faults (FileChunker.chunks gearTable content) with
      | mk parts next =>
        rw [result] at parts_spec
        have here := parts_spec.1.preserves wellFormed
        cases parts with
        | none => exact ⟨here, fun _ impossible => by cases impossible⟩
        | some parts =>
          obtain ⟨parts_eq, all⟩ := parts_spec.2 parts rfl
          have absent : next.entries type hash = none := by
            rw [parts_spec.1.entries]
            exact entry
          have length : parts.length = (FileChunker.chunks gearTable content).length := by
            rw [parts_eq, length_map]
          unfold LocalCas.writeEntry
          simp only [absent, Option.isSome_none, false_eq_true, ↓reduceIte]
          by_cases few : parts.length < 2
          · simp only [few, ↓reduceIte]
            refine ⟨here, ?_⟩
            intro others same several
            cases same
            omega
          · have stores := works entry content stored (by omega)
            simp only [few, stores, false_eq_true, ↓reduceIte]
            have isSplit : SplitEntry hashes gearTable next type hash parts content :=
              { hash := ofLarge_of_largeObject wellFormed.addressed stored
                several := by omega
                spliced := by
                  rw [spliced, all, map_some, FileChunker.flatten_chunks]
                whole := by
                  intro part member chunk isPart
                  rw [parts_eq] at member
                  obtain ⟨other, isChunk, other_eq⟩ := mem_map.mp member
                  rw [hashes.blob_injective (isPart.trans other_eq.symm),
                    FileChunker.chunks_chunk isChunk]
                  exact Nat.lt_succ_self 1 }
            have later := setEntry_preserves absent isSplit here.2
            refine ⟨⟨here.1.trans later.1, later.2⟩, fun _ _ _ => ⟨parts, ?_⟩⟩
            rw [entries_setEntry, if_pos ⟨rfl, rfl⟩]

/-- No store of a large entry fails in a task: where an object without an entry has several chunks.
-/
def Stores (gearTable : UInt8 → UInt64) (task : SplitTask Hash) (cas : LocalCas Hash) : Prop :=
  ∀ content, cas.objects task.type task.hash = some content →
    cas.entries task.type.large task.hash = none →
    2 ≤ (FileChunker.chunks gearTable content).length → task.faults.entry = false

theorem splitLarge_preserves {task : SplitTask Hash} {cas : LocalCas Hash}
    (works : Stores gearTable task cas) : Preserves hashes gearTable cas
      (splitLarge hashes gearTable task.faults task.type task.hash cas).2 := by
  intro wellFormed
  unfold splitLarge
  cases stored : cas.objects task.type task.hash with
  | none => exact Preserves.refl cas wellFormed
  | some content =>
    simp only
    rw [wellFormed.addressed task.type task.hash content stored]
    have done := @split_spec _ _ hashes gearTable task.faults task.type.large task.hash cas (by
      intro absent other object several
      have same := largeObject_of_objects wellFormed.addressed stored
      rw [object] at same
      cases same
      exact works content stored absent several) wellFormed
    cases result : cas.split hashes gearTable task.faults task.type.large task.hash with
    | mk parts next =>
      rw [result] at done
      cases parts with
      | none => exact done.1
      | some parts =>
        simp only
        split
        · exact done.1
        · next several =>
          split
          · exact done.1
          · obtain ⟨own, entry⟩ := done.2 parts rfl (by omega)
            have later := remove_preserves entry done.1.2
            exact ⟨done.1.1.trans later.1, later.2⟩

theorem removeAll_preserves (faults : Faults Hash) {hash : Hash} {type : LargeType}
    {types : List StorageType} (ofType : ∀ storage ∈ types, storage.large = type)
    {cas : LocalCas Hash} {own : List Hash} (entry : cas.entries type hash = some own) :
    Preserves hashes gearTable cas (removeAll faults hash types cas).2 := by
  induction types generalizing cas with
  | nil => exact Preserves.refl cas
  | cons storage rest step =>
    have others : ∀ other ∈ rest, other.large = type := (forall_mem_cons.mp ofType).2
    unfold removeAll
    split
    · exact step others entry
    · split
      · exact Preserves.refl cas
      · have here : cas.entries storage.large hash = some own := by
          rw [ofType storage mem_cons_self]
          exact entry
        exact (remove_preserves here).trans (step others entry)

theorem removeSpliced_preserves (faults : Faults Hash) (type : LargeType) (hash : Hash)
    (cas : LocalCas Hash) :
    Preserves hashes gearTable cas (removeSpliced faults type hash cas).2 := by
  unfold removeSpliced
  split
  · exact Preserves.refl cas
  · next listed =>
    obtain ⟨own, entry⟩ := Option.ne_none_iff_exists'.mp
      (fun absent => listed (Option.isNone_iff_eq_none.mpr absent))
    cases type with
    | file => exact removeAll_preserves faults (by simp [StorageType.large]) entry
    | tree => exact removeAll_preserves faults (by simp [StorageType.large]) entry

theorem runRemovals_preserves (tasks : List (RemoveTask Hash)) (cas : LocalCas Hash) :
    Preserves hashes gearTable cas (runRemovals tasks cas) := by
  induction tasks generalizing cas with
  | nil => exact Preserves.refl cas
  | cons task rest step =>
    exact (removeSpliced_preserves task.faults task.type task.hash cas).trans (step _)

/-- No store of a large entry fails while objects are split. -/
def AllStore (hashes : Hashes Hash) (gearTable : UInt8 → UInt64) :
    List (SplitTask Hash) → LocalCas Hash → Prop
  | [], _ => True
  | task :: rest, cas =>
    Stores gearTable task cas ∧ AllStore hashes gearTable rest
      (splitLarge hashes gearTable task.faults task.type task.hash cas).2

theorem allStore_append {first second : List (SplitTask Hash)} {cas : LocalCas Hash} :
    AllStore hashes gearTable (first ++ second) cas ↔ AllStore hashes gearTable first cas ∧
      AllStore hashes gearTable second (runSplits hashes gearTable first cas) := by
  induction first generalizing cas with
  | nil => exact ⟨fun all => ⟨trivial, all⟩, fun all => all.2⟩
  | cons task rest step =>
    rw [cons_append, AllStore, AllStore, step, and_assoc]
    rfl

theorem runSplits_preserves {tasks : List (SplitTask Hash)} {cas : LocalCas Hash}
    (works : AllStore hashes gearTable tasks cas) :
    Preserves hashes gearTable cas (runSplits hashes gearTable tasks cas) := by
  induction tasks generalizing cas with
  | nil => exact Preserves.refl cas
  | cons task rest step => exact (splitLarge_preserves works.1).trans (step works.2)

/-! ## Runs -/

/-- Nothing is lost in a run, and nothing between any two points of it. -/
def LosesNothing (hashes : Hashes Hash) (gearTable : UInt8 → UInt64) (threshold : Nat)
    (removals : List (RemoveTask Hash)) (first second : List (SplitTask Hash))
    (start : LocalCas Hash) : Prop :=
  Kept start (compactify hashes gearTable threshold removals first start) ∧
  Kept (compactify hashes gearTable threshold removals first start)
    (compactify hashes gearTable threshold removals (first ++ second) start)

/-- Nothing is lost, in any order of the tasks and wherever it stops, if no store of a large entry
fails on the way: every object is retrieved as before, and parts of entries stay. -/
theorem compactify_losesNothing (threshold : Nat) (removals : List (RemoveTask Hash))
    (first second : List (SplitTask Hash)) (start : LocalCas Hash)
    (wellFormed : WellFormed hashes gearTable start)
    (works : AllStore hashes gearTable
      ((first ++ second).filter fun task =>
        isLarge threshold (runRemovals removals start) task.type task.hash)
      (runRemovals removals start)) :
    LosesNothing hashes gearTable threshold removals first second start := by
  have removed := runRemovals_preserves removals start wellFormed
  rw [filter_append, allStore_append] at works
  have front := runSplits_preserves works.1 removed.2
  have back := runSplits_preserves works.2 front.2
  constructor
  · exact removed.1.trans front.1
  · unfold compactify
    simp only [filter_append, runSplits, foldl_append] at back ⊢
    exact back.1

/-! ## A failing store -/

theorem storeParts_executable (faults : Faults Hash) (chunks : List Str) (cas : LocalCas Hash)
    (hash : Hash) : (cas.storeParts hashes faults chunks).2.objects .executable hash =
      cas.objects .executable hash := by
  have blob : ∀ content (cas : LocalCas Hash),
      (cas.storeBlob hashes faults content).2.objects .executable hash =
        cas.objects .executable hash := by
    intro content cas
    unfold LocalCas.storeBlob
    simp only
    split
    · rfl
    · split
      · rfl
      · simp [objects_setObject]
  induction chunks generalizing cas with
  | nil => rfl
  | cons chunk rest step =>
    have here := blob chunk cas
    unfold LocalCas.storeParts
    cases stored : cas.storeBlob hashes faults chunk with
    | mk result next =>
      rw [stored] at here
      cases result with
      | none => exact here
      | some part => exact (step next).trans here

theorem storeParts_isSome (works : ∀ part, faults.part part = false) (chunks : List Str)
    (cas : LocalCas Hash) : (cas.storeParts hashes faults chunks).1.isSome := by
  induction chunks generalizing cas with
  | nil => rfl
  | cons chunk rest step =>
    unfold LocalCas.storeParts
    cases stored : cas.storeBlob hashes faults chunk with
    | mk result next =>
      cases result with
      | none =>
        unfold LocalCas.storeBlob at stored
        simp only [works, false_eq_true, ↓reduceIte] at stored
        split at stored <;> cases stored
      | some part =>
        have later := step next
        simp only [Option.isSome_map]
        exact later

theorem lost_of_entry_fault {hash : Hash} {content : Str} {cas : LocalCas Hash}
    (addressed : Addressed hashes cas) (stored : cas.objects .file hash = some content)
    (other : cas.objects .executable hash = none) (absent : cas.entries .file hash = none)
    (several : 2 ≤ (FileChunker.chunks gearTable content).length)
    (parts : ∀ part, faults.part part = false) (remove : faults.remove .file = false)
    (fails : faults.entry = true) :
    retrieve (splitLarge hashes gearTable faults .file hash cas).2 .file hash = none := by
  have found : cas.largeObject .file hash = some content := by
    rw [LocalCas.largeObject, stored]
    rfl
  have isSome := @storeParts_isSome _ _ hashes faults parts (FileChunker.chunks gearTable content) cas
  have executable := @storeParts_executable _ _ hashes faults
    (FileChunker.chunks gearTable content) cas hash
  have spec := @storeParts_spec _ _ hashes faults (FileChunker.chunks gearTable content) cas addressed
  unfold splitLarge LocalCas.split
  simp only [stored, StorageType.large]
  rw [show hashes.ofLarge .file content = hash from addressed .file hash content stored]
  simp only [absent, found]
  cases result : cas.storeParts hashes faults (FileChunker.chunks gearTable content) with
  | mk parts next =>
    rw [result] at isSome executable spec
    cases parts with
    | none => cases isSome
    | some parts =>
      have length : ¬ parts.length < 2 := by
        rw [(spec.2 parts rfl).1, length_map]
        omega
      have noEntry : next.entries .file hash = none := by
        rw [spec.1.entries]
        exact absent
      have unwritten : next.writeEntry faults .file hash parts = (false, next) := by
        simp [LocalCas.writeEntry, noEntry, length, fails]
      simp only [unwritten, length, remove, false_eq_true, ↓reduceIte]
      have noOther : next.objects .executable hash = none := executable.trans other
      have gone : (next.setObject .file hash none).largeObject .file hash = none := by
        simp [LocalCas.largeObject, objects_setObject, noOther]
      have none : (next.setObject .file hash none).entries .file hash = none := noEntry
      rw [retrieve, gone, none]
      rfl

end Tasks

/-- Blobs and trees under their own content. -/
def plainHashes : Hashes Str where
  blob := id
  tree := id
  blob_injective := Function.injective_id
  tree_injective := Function.injective_id

/-- A file that is longer than the longest chunk. -/
@[irreducible] def largeFile : Str := replicate (FileChunker.maxChunkSize + 1) 0

/-- A generation with one file. -/
def singleFile (content : Str) : LocalCas Str where
  objects type hash := if type = .file ∧ hash = content then some content else none
  entries _ _ := none

/-- A task for a file, whose large entry is stored or not. -/
def splitTask (content : Str) (fails : Bool) : SplitTask Str where
  type := .file
  hash := content
  faults := { part := fun _ => false, entry := fails, remove := fun _ => false }

theorem several_chunks : 2 ≤ (FileChunker.chunks (fun _ => 0) largeFile).length := by
  refine FileChunker.length_chunks_of_long ?_
  rw [largeFile, length_replicate]
  exact Nat.lt_succ_self _

theorem singleFile_wellFormed (content : Str) :
    WellFormed plainHashes (fun _ => 0) (singleFile content) where
  addressed := by
    intro type hash other stored
    obtain ⟨⟨rfl, rfl⟩, same⟩ := Option.ite_none_right_eq_some.mp stored
    exact (some.inj same).symm
  entries := by
    intro _ _ _ entry
    cases entry

theorem filter_splitTask (content : Str) (fails : Bool) :
    ([splitTask content fails].filter fun task =>
      isLarge 0 (runRemovals [] (singleFile content)) task.type task.hash) =
        [splitTask content fails] := by
  simp [isLarge, runRemovals, singleFile, splitTask]

theorem allStore_splitTask (content : Str) :
    AllStore plainHashes (fun _ => 0) (([splitTask content false] ++ []).filter fun task =>
      isLarge 0 (runRemovals [] (singleFile content)) task.type task.hash)
      (runRemovals [] (singleFile content)) := by
  rw [append_nil, filter_splitTask]
  exact ⟨fun _ _ _ _ => rfl, trivial⟩

theorem splitTask_losesNothing :
    LosesNothing plainHashes (fun _ => 0) 0 [] [splitTask largeFile false] []
      (singleFile largeFile) :=
  compactify_losesNothing 0 [] [splitTask largeFile false] [] (singleFile largeFile)
    (singleFile_wellFormed largeFile) (allStore_splitTask largeFile)

theorem singleFile_lost {content : Str}
    (several : 2 ≤ (FileChunker.chunks (fun _ => 0) content).length) :
    ¬ LosesNothing plainHashes (fun _ => 0) 0 [] [splitTask content true] []
      (singleFile content) := by
  intro nothing
  have kept := nothing.1.retrieve .file content content (by
    simp [retrieve, LocalCas.largeObject, singleFile])
  have lost := @lost_of_entry_fault _ _ plainHashes (fun _ => 0) (splitTask content true).faults
    content content (singleFile content) (singleFile_wellFormed content).addressed
    (by simp [singleFile])
    (by simp [singleFile]) rfl several (fun _ => rfl) rfl rfl
  unfold compactify at kept
  simp only [filter_splitTask] at kept
  have impossible := kept.symm.trans lost
  cases impossible

theorem entry_fault_losesFile :
    ¬ ∀ (threshold : Nat) (removals : List (RemoveTask Str)) (first second : List (SplitTask Str))
      (start : LocalCas Str), WellFormed plainHashes (fun _ => 0) start →
      LosesNothing plainHashes (fun _ => 0) threshold removals first second start :=
  fun always => singleFile_lost several_chunks
    (always 0 [] [splitTask largeFile true] [] (singleFile largeFile)
      (singleFile_wellFormed largeFile))

end Jst.Verif.Compactification
