import Jst.Storage.Uplinker
import Jst.Verif.Compactification
/-!
# Uplinking keeps trees complete

In each generation the entries of every stored tree are stored, where large entries count with all
of their parts. An uplink first copies what a tree refers to, so that this holds after it in all
generations. What some generation has can be uplinked, except for large entries: the search for them
takes a generation without an entry for a success, and ends at the youngest one.
-/
namespace Jst.Verif.Uplinking

open Storage Storage.Generations
open Compactification (Addressed ofLarge_injective objects_setObject entries_setEntry)

variable {Hash : Type}

variable {cas : LocalCas Hash} {rank : Hash → Nat} {count : Nat}

/-! ## Complete generations -/

/-- A blob is stored, with any x-bit or as a large entry. -/
def HasBlob (cas : LocalCas Hash) (hash : Hash) : Prop :=
  (cas.objects .file hash).isSome ∨ (cas.objects .executable hash).isSome ∨
    (cas.entries .file hash).isSome

/-- A tree is stored, or a large entry for it. -/
def HasTree (cas : LocalCas Hash) (hash : Hash) : Prop :=
  (cas.objects .tree hash).isSome ∨ (cas.entries .tree hash).isSome

/-- An entry of a tree is stored. -/
def HasEntry (cas : LocalCas Hash) (entry : Hash × ObjectType) : Prop :=
  if entry.2 = .tree then HasTree cas entry.1 else HasBlob cas entry.1

/-- Parts are stored and make up a content. -/
def Splices (cas : LocalCas Hash) (parts : List Hash) (content : Str) : Prop :=
  ∃ chunks, parts.mapM (cas.objects .file) = some chunks ∧ chunks.flatten = content

/-- A tree can be read and its entries are stored. -/
def Readable (protocol : Protocol Hash) (cas : LocalCas Hash) (content : Str) : Prop :=
  ∃ entries, protocol.readTreeData content = some entries ∧ ∀ entry ∈ entries, HasEntry cas entry

/-- A generation in which everything is complete. -/
structure Intact (protocol : Protocol Hash) (cas : LocalCas Hash) : Prop where
  addressed : Addressed protocol.hashes cas
  entries : ∀ type hash parts, cas.entries type hash = some parts →
    ∃ content, protocol.hashes.ofLarge type content = hash ∧ Splices cas parts content
  trees : ∀ content, HasTree cas (protocol.hashes.tree content) → Readable protocol cas content

/-- All generations are complete. -/
def AllIntact (protocol : Protocol Hash) (gens : Generations Hash) : Prop :=
  ∀ i, Intact protocol (gens i)

/-- Nothing is removed from a generation. -/
structure Grows (before after : LocalCas Hash) : Prop where
  objects : ∀ type hash content, before.objects type hash = some content →
    after.objects type hash = some content
  entries : ∀ type hash parts, before.entries type hash = some parts →
    after.entries type hash = some parts

/-- Nothing is removed from any generation. -/
def AllGrow (before after : Generations Hash) : Prop := ∀ i, Grows (before i) (after i)

section Growth

variable {protocol : Protocol Hash} {before after : LocalCas Hash}

variable {content : Str} {hash : Hash} {parts : List Hash}

theorem Grows.refl (cas : LocalCas Hash) : Grows cas cas :=
  ⟨fun _ _ _ same => same, fun _ _ _ same => same⟩

theorem Grows.trans {first second third : LocalCas Hash} (front : Grows first second)
    (back : Grows second third) : Grows first third where
  objects type hash content stored :=
    back.objects type hash content (front.objects type hash content stored)
  entries type hash parts stored :=
    back.entries type hash parts (front.entries type hash parts stored)

theorem AllGrow.refl (gens : Generations Hash) : AllGrow gens gens := fun i => Grows.refl (gens i)

theorem AllGrow.trans {first second third : Generations Hash} (front : AllGrow first second)
    (back : AllGrow second third) : AllGrow first third := fun i => (front i).trans (back i)

theorem Grows.object_isSome (grows : Grows before after) {type : StorageType}
    (stored : (before.objects type hash).isSome) : (after.objects type hash).isSome := by
  obtain ⟨content, object⟩ := isSome_iff_exists.mp stored
  exact isSome_iff_exists.mpr ⟨content, grows.objects type hash content object⟩

theorem Grows.entry_isSome (grows : Grows before after) {type : LargeType}
    (stored : (before.entries type hash).isSome) : (after.entries type hash).isSome := by
  obtain ⟨parts, entry⟩ := isSome_iff_exists.mp stored
  exact isSome_iff_exists.mpr ⟨parts, grows.entries type hash parts entry⟩

theorem HasBlob.grows (stored : HasBlob before hash) (grows : Grows before after) :
    HasBlob after hash :=
  Or.imp grows.object_isSome (Or.imp grows.object_isSome grows.entry_isSome) stored

theorem HasTree.grows (stored : HasTree before hash) (grows : Grows before after) :
    HasTree after hash :=
  Or.imp grows.object_isSome grows.entry_isSome stored

theorem HasEntry.grows {entry : Hash × ObjectType} (stored : HasEntry before entry)
    (grows : Grows before after) : HasEntry after entry := by
  unfold HasEntry at stored ⊢
  split
  · next isTree =>
    rw [if_pos isTree] at stored
    exact stored.grows grows
  · next isBlob =>
    rw [if_neg isBlob] at stored
    exact stored.grows grows

theorem Readable.grows (readable : Readable protocol before content) (grows : Grows before after) :
    Readable protocol after content := by
  obtain ⟨entries, read, all⟩ := readable
  exact ⟨entries, read, fun entry member => (all entry member).grows grows⟩

theorem Splices.of_parts (splices : Splices before parts content)
    (stored : ∀ part ∈ parts, ∀ chunk, before.objects .file part = some chunk →
      after.objects .file part = some chunk) : Splices after parts content := by
  obtain ⟨chunks, all, same⟩ := splices
  refine ⟨chunks, ?_, same⟩
  have calls := Loops.mapM_eq_some.mp all
  clear all same
  refine Loops.mapM_eq_some.mpr ?_
  induction calls with
  | nil => exact .nil
  | cons here _ step =>
    exact .cons (stored _ mem_cons_self _ here)
      (step (forall_mem_cons.mp stored).2)

theorem Splices.grows (splices : Splices before parts content) (grows : Grows before after) :
    Splices after parts content :=
  splices.of_parts fun part _ chunk => grows.objects .file part chunk

theorem Splices.part (splices : Splices cas parts content) {part : Hash} (member : part ∈ parts) :
    ∃ chunk, cas.objects .file part = some chunk := by
  obtain ⟨chunks, all, same⟩ := splices
  have calls := Loops.mapM_eq_some.mp all
  clear all same
  induction calls with
  | nil => cases member
  | cons here _ step =>
    cases mem_cons.mp member with
    | inl first => exact ⟨_, first ▸ here⟩
    | inr later => exact step later

end Growth

/-! ## Additions -/

section Additions

variable [DecidableEq Hash] {protocol : Protocol Hash}

variable {gens : Generations Hash}

omit [DecidableEq Hash] in
theorem content_unique (addressed : Addressed protocol.hashes cas) {type : StorageType}
    {stored content : Str}
    (object : cas.objects type (protocol.hashes.ofLarge type.large content) = some stored) :
    stored = content :=
  ofLarge_injective (addressed type _ stored object)

theorem grows_setObject {type : StorageType} {hash : Hash} {content : Str}
    (absent : cas.objects type hash = none) :
    Grows cas (cas.setObject type hash (some content)) where
  objects := by
    intro other key stored object
    rw [objects_setObject, if_neg]
    · exact object
    · rintro ⟨rfl, rfl⟩
      rw [absent] at object
      cases object
  entries _ _ _ entry := entry

theorem grows_setEntry {type : LargeType} {hash : Hash} {parts : List Hash}
    (absent : cas.entries type hash = none) : Grows cas (cas.setEntry type hash parts) where
  objects _ _ _ object := object
  entries := by
    intro other key stored entry
    rw [entries_setEntry, if_neg]
    · exact entry
    · rintro ⟨rfl, rfl⟩
      rw [absent] at entry
      cases entry

theorem intact_setObject (intact : Intact protocol cas) {type : StorageType} {content : Str}
    (absent : cas.objects type (protocol.hashes.ofLarge type.large content) = none)
    (readable : type = .tree → Readable protocol cas content) : Intact protocol
      (cas.setObject type (protocol.hashes.ofLarge type.large content) (some content)) where
  addressed := by
    intro other key stored object
    rw [objects_setObject] at object
    split at object
    · next same =>
      obtain ⟨rfl, rfl⟩ := same
      cases object
      rfl
    · exact intact.addressed other key stored object
  entries := by
    intro other key parts entry
    obtain ⟨stored, own, splices⟩ := intact.entries other key parts entry
    exact ⟨stored, own, splices.grows (grows_setObject absent)⟩
  trees := by
    intro tree stored
    refine Readable.grows ?_ (grows_setObject absent)
    cases stored with
    | inr entry => exact intact.trees tree (.inr entry)
    | inl object =>
      rw [objects_setObject] at object
      split at object
      · next same =>
        obtain ⟨rfl, same⟩ := same
        rw [protocol.hashes.tree_injective same]
        exact readable rfl
      · exact intact.trees tree (.inl object)

theorem intact_setEntry (intact : Intact protocol cas) {type : LargeType} {content : Str}
    {parts : List Hash} (absent : cas.entries type (protocol.hashes.ofLarge type content) = none)
    (splices : Splices cas parts content) (readable : type = .tree → Readable protocol cas content) :
    Intact protocol (cas.setEntry type (protocol.hashes.ofLarge type content) parts) where
  addressed := intact.addressed
  entries := by
    intro other key list entry
    rw [entries_setEntry] at entry
    split at entry
    · next same =>
      obtain ⟨rfl, rfl⟩ := same
      cases entry
      exact ⟨content, rfl, splices.grows (grows_setEntry absent)⟩
    · obtain ⟨stored, own, spliced⟩ := intact.entries other key list entry
      exact ⟨stored, own, spliced.grows (grows_setEntry absent)⟩
  trees := by
    intro tree stored
    refine Readable.grows ?_ (grows_setEntry absent)
    cases stored with
    | inl object => exact intact.trees tree (.inl object)
    | inr entry =>
      rw [entries_setEntry] at entry
      split at entry
      · next same =>
        obtain ⟨rfl, same⟩ := same
        rw [protocol.hashes.tree_injective same]
        exact readable rfl
      · exact intact.trees tree (.inr entry)

/-- What a call leaves: complete generations from which nothing was removed. -/
structure Leaves (protocol : Protocol Hash) (before after : Generations Hash) : Prop where
  grow : AllGrow before after
  intact : AllIntact protocol after

section
omit [DecidableEq Hash]

theorem Leaves.refl (intact : AllIntact protocol gens) : Leaves protocol gens gens :=
  ⟨AllGrow.refl gens, intact⟩

theorem Leaves.trans {first second third : Generations Hash} (front : Leaves protocol first second)
    (back : Leaves protocol second third) : Leaves protocol first third :=
  ⟨front.grow.trans back.grow, back.intact⟩

theorem leaves_update (intact : AllIntact protocol gens) {i : Nat} (grows : Grows (gens i) cas)
    (complete : Intact protocol cas) : Leaves protocol gens (update gens i cas) := by
  constructor
  · intro j
    by_cases same : j = i
    · rw [same, update_self]
      exact grows
    · rw [update_of_ne same]
      exact Grows.refl _
  · intro j
    by_cases same : j = i
    · rw [same, update_self]
      exact complete
    · rw [update_of_ne same]
      exact intact j

end

theorem store_leaves (intact : AllIntact protocol gens) (i : Nat) {type : StorageType}
    {content : Str} (readable : type = .tree → Readable protocol (gens i) content) :
    Leaves protocol gens (store protocol.hashes i type content gens) ∧
      (store protocol.hashes i type content gens i).objects type
        (protocol.hashes.ofLarge type.large content) = some content := by
  unfold store
  simp only
  split
  · next available =>
    obtain ⟨stored, object⟩ := isSome_iff_exists.mp available
    refine ⟨Leaves.refl intact, ?_⟩
    rw [object, content_unique (intact i).addressed object]
  · next missing =>
    have absent := not_isSome_iff_eq_none.mp missing
    refine ⟨leaves_update intact (grows_setObject absent)
      (intact_setObject (intact i) absent readable), ?_⟩
    rw [update_self, objects_setObject, if_pos ⟨rfl, rfl⟩]

end Additions

/-! ## Loops -/

theorem allOf_true {Item State : Type} {call : Item → State → Bool × State}
    {Rel : State → State → Prop} {Done : Item → State → Prop}
    (trans : ∀ first second third, Rel first second → Rel second third → Rel first third)
    (stays : ∀ item before after, Done item before → Rel before after → Done item after)
    {start : State} (refl : ∀ state, Rel start state → Rel state state) {items : List Item}
    (each : ∀ item ∈ items, ∀ state, Rel start state →
      ∃ after, call item state = (true, after) ∧ Rel state after ∧ Done item after)
    {state : State} (reached : Rel start state) :
    ∃ after, allOf call items state = (true, after) ∧ Rel state after ∧
      ∀ item ∈ items, Done item after := by
  induction items generalizing state with
  | nil => exact ⟨state, rfl, refl state reached, fun _ impossible => by cases impossible⟩
  | cons item rest step =>
    obtain ⟨next, called, related, done⟩ := each item mem_cons_self state reached
    obtain ⟨after, remaining, later, others⟩ :=
      step (forall_mem_cons.mp each).2
        (trans _ _ _ reached related)
    refine ⟨after, ?_, trans _ _ _ related later, ?_⟩
    · rw [allOf, called]
      exact remaining
    · intro other member
      cases mem_cons.mp member with
      | inl here => exact here ▸ stays item next after done later
      | inr inRest => exact others other inRest

theorem anyOf_eq {Item State : Type} {call : Item → State → Bool × State} {state : State}
    {succeeds : Item → Prop} (works : ∀ item, succeeds item → (call item state).1 = true)
    (fails : ∀ item, ¬ succeeds item → call item state = (false, state)) (items : List Item) :
    (∃ item ∈ items, succeeds item ∧ anyOf call items state = call item state) ∨
      ((∀ item ∈ items, ¬ succeeds item) ∧ anyOf call items state = (false, state)) := by
  induction items with
  | nil => exact .inr ⟨fun _ impossible => (by cases impossible), rfl⟩
  | cons item rest step =>
    by_cases success : succeeds item
    · refine .inl ⟨item, mem_cons_self, success, ?_⟩
      have result := works item success
      rw [anyOf]
      cases called : call item state with
      | mk uplinked after =>
        rw [called] at result
        simp only at result
        rw [result]
    · rw [anyOf, fails item success]
      cases step with
      | inl found =>
        obtain ⟨other, member, works, same⟩ := found
        exact .inl ⟨other, mem_cons_of_mem _ member, works, same⟩
      | inr none =>
        refine .inr ⟨?_, none.2⟩
        intro other member
        cases mem_cons.mp member with
        | inl here => exact here ▸ success
        | inr later => exact none.1 other later

/-! ## Blobs -/

section Blobs

variable [DecidableEq Hash] {protocol : Protocol Hash} {gens : Generations Hash}

theorem blobType_ne_tree (executable : Bool) : blobType executable ≠ .tree := by
  cases executable <;> decide

@[simp] theorem blobType_large (executable : Bool) : (blobType executable).large = .file := by
  cases executable <;> rfl

omit [DecidableEq Hash] in
theorem hasBlob_of_object {hash : Hash} (executable : Bool)
    (stored : (cas.objects (blobType executable) hash).isSome) : HasBlob cas hash := by
  cases executable with
  | false => exact .inl stored
  | true => exact .inr (.inl stored)

theorem store_blob_leaves (intact : AllIntact protocol gens) (i : Nat) (executable : Bool)
    (content : Str) :
    Leaves protocol gens (store protocol.hashes i (blobType executable) content gens) ∧
      (store protocol.hashes i (blobType executable) content gens i).objects (blobType executable)
        (protocol.hashes.blob content) = some content := by
  have stored := @store_leaves _ _ protocol gens intact i (blobType executable) content
    (fun isTree => absurd isTree (blobType_ne_tree executable))
  rw [blobType_large] at stored
  exact stored

theorem blobPath_cases (intact : AllIntact protocol gens) (i : Nat) (hash : Hash)
    (executable : Bool) :
    (∃ content after, blobPath protocol.hashes i hash executable gens = (some content, after) ∧
      protocol.hashes.blob content = hash ∧ Leaves protocol gens after) ∨
    (blobPath protocol.hashes i hash executable gens = (none, gens) ∧
      ∀ other, (gens i).objects (blobType other) hash = none) := by
  unfold blobPath
  cases plain : (gens i).objects (blobType executable) hash with
  | some content =>
    have own := (intact i).addressed _ hash content plain
    rw [blobType_large] at own
    exact .inl ⟨content, gens, rfl, own, Leaves.refl intact⟩
  | none =>
    cases inverse : (gens i).objects (blobType !executable) hash with
    | none =>
      refine .inr ⟨rfl, ?_⟩
      intro other
      by_cases same : other = executable
      · rw [same, plain]
      · rw [Bool.eq_not_of_ne same, inverse]
    | some content =>
      have own := (intact i).addressed _ hash content inverse
      rw [blobType_large] at own
      have stored := store_blob_leaves intact i executable content
      refine .inl ⟨content, _, ?_, own, stored.1⟩
      simp only [← own]
      rw [show protocol.hashes.ofLarge .file content = protocol.hashes.blob content from rfl,
        stored.2]

theorem blobPath_of_object {i : Nat} {hash : Hash} {executable : Bool} {content : Str}
    (stored : (gens i).objects (blobType executable) hash = some content) :
    blobPath protocol.hashes i hash executable gens = (some content, gens) := by
  rw [blobPath, stored]

variable {i : Nat}

theorem splice_of_splices {parts : List Hash} {content : Str}
    (splices : Splices (gens i) parts content) :
    splice protocol.hashes i parts gens = (some content, gens) := by
  obtain ⟨chunks, all, rfl⟩ := splices
  have calls := Loops.mapM_eq_some.mp all
  clear all
  induction calls with
  | nil => rfl
  | cons here _ step =>
    have found := @blobPath_of_object _ _ protocol gens i _ false _ here
    rw [splice, found]
    simp only [step]
    rfl

theorem trySplice_of_entry (intact : AllIntact protocol gens) {type : LargeType}
    {hash : Hash} {parts : List Hash} (entry : (gens i).entries type hash = some parts) :
    ∃ content, protocol.hashes.ofLarge type content = hash ∧ Splices (gens i) parts content ∧
      trySplice protocol.hashes i type hash gens = (some content, gens) := by
  obtain ⟨content, own, splices⟩ := (intact i).entries type hash parts entry
  refine ⟨content, own, splices, ?_⟩
  rw [trySplice, entry]
  exact splice_of_splices splices

theorem trySplice_of_none {type : LargeType} {hash : Hash}
    (absent : (gens i).entries type hash = none) :
    trySplice protocol.hashes i type hash gens = (none, gens) := by
  rw [trySplice, absent]

section

variable (intact : AllIntact protocol gens)
include intact

theorem findBlob_cases (i : Nat) (hash : Hash) (executable skipSync : Bool) :
    (∃ content after, findBlob protocol.hashes i hash executable skipSync gens =
      (some content, after) ∧ protocol.hashes.blob content = hash ∧ Leaves protocol gens after) ∨
    (findBlob protocol.hashes i hash executable skipSync gens = (none, gens) ∧
      (gens i).objects (blobType executable) hash = none ∧
      (skipSync = false → ∀ other, (gens i).objects (blobType other) hash = none)) := by
  cases skipSync with
  | false =>
    cases blobPath_cases intact i hash executable with
    | inl found => exact .inl found
    | inr missing => exact .inr ⟨missing.1, missing.2 executable, fun _ => missing.2⟩
  | true =>
    unfold findBlob
    rw [if_pos rfl]
    cases plain : (gens i).objects (blobType executable) hash with
    | none => exact .inr ⟨rfl, rfl, fun impossible => by cases impossible⟩
    | some content =>
      have own := (intact i).addressed _ hash content plain
      rw [blobType_large] at own
      exact .inl ⟨content, gens, rfl, own, Leaves.refl intact⟩

theorem uplink_part (fuel : Nat) {part : Hash} {chunk : Str}
    (stored : (gens i).objects .file part = some chunk) :
    ∃ after, localUplinkBlob protocol.hashes (fuel + 1) i part false true false gens =
        (true, after) ∧ Leaves protocol gens after ∧
      (∀ j, (after j).entries = (gens j).entries) ∧ (after 0).objects .file part = some chunk := by
  have own : protocol.hashes.blob chunk = part := (intact i).addressed .file part chunk stored
  unfold localUplinkBlob
  split
  · next available =>
    obtain ⟨other, object⟩ := isSome_iff_exists.mp available
    have same : protocol.hashes.blob other = part := (intact 0).addressed .file part other object
    rw [← protocol.hashes.blob_injective (same.trans own.symm)]
    exact ⟨gens, rfl, Leaves.refl intact, fun _ => rfl, object⟩
  · have found : findBlob protocol.hashes i part false true gens = (some chunk, gens) := by
      rw [findBlob, if_pos rfl]
      exact congrArg (·, gens) stored
    have kept := store_blob_leaves intact 0 false chunk
    rw [found]
    refine ⟨_, rfl, kept.1, ?_, ?_⟩
    · intro j
      unfold store
      split
      · rfl
      · by_cases youngest : j = 0
        · rw [youngest, update_self]
          rfl
        · rw [update_of_ne youngest]
    · have object := kept.2
      rw [own] at object
      exact object

theorem localUplinkLargeObject_of_entry (fuel : Nat) {i : Nat} {type : LargeType} {content : Str}
    {parts : List Hash}
    (entry : (gens i).entries type (protocol.hashes.ofLarge type content) = some parts)
    (readable : type = .tree → Readable protocol (gens 0) content) : ∃ after, localUplinkLargeObject
        (fun part => localUplinkBlob protocol.hashes (fuel + 1) i part false true false) i type
        (protocol.hashes.ofLarge type content) gens = (true, after) ∧ Leaves protocol gens after ∧
      ((after 0).entries type (protocol.hashes.ofLarge type content)).isSome := by
  unfold localUplinkLargeObject
  split
  · next available => exact ⟨gens, rfl, Leaves.refl intact, available⟩
  · next missing =>
    have absent := not_isSome_iff_eq_none.mp missing
    obtain ⟨stored, same, splices⟩ := (intact i).entries type _ parts entry
    rw [ofLarge_injective same] at splices
    rw [entry]
    have uplinked := @allOf_true _ _
      (fun part => localUplinkBlob protocol.hashes (fuel + 1) i part false true false)
      (fun before after => Leaves protocol before after ∧
        ∀ j, (after j).entries = (before j).entries)
      (fun part state => ∃ chunk, (gens i).objects .file part = some chunk ∧
        (state 0).objects .file part = some chunk)
      (fun _ _ _ front back => ⟨front.1.trans back.1, fun j => (back.2 j).trans (front.2 j)⟩)
      (by
        rintro part before after ⟨chunk, older, object⟩ related
        exact ⟨chunk, older, (related.1.grow 0).objects _ _ _ object⟩)
      gens (fun state related => ⟨Leaves.refl related.1.intact, fun _ => rfl⟩) parts
      (by
        intro part member state related
        obtain ⟨chunk, older⟩ := splices.part member
        obtain ⟨after, called, leaves, same, object⟩ := uplink_part related.1.intact fuel
          ((related.1.grow i).objects _ _ _ older)
        exact ⟨after, called, ⟨leaves, same⟩, chunk, older, object⟩)
      gens ⟨Leaves.refl intact, fun _ => rfl⟩
    obtain ⟨next, called, related, all⟩ := uplinked
    simp only [called]
    have noEntry : (next 0).entries type (protocol.hashes.ofLarge type content) = none := by
      rw [related.2 0]
      exact absent
    have spliced : Splices (next 0) parts content := by
      refine splices.of_parts ?_
      intro part member chunk object
      obtain ⟨other, older, uplinked⟩ := all part member
      rw [object] at older
      cases older
      exact uplinked
    refine ⟨_, rfl, related.1.trans (leaves_update related.1.intact (grows_setEntry noEntry)
      (intact_setEntry (related.1.intact 0) noEntry spliced fun isTree =>
        (readable isTree).grows (related.1.grow 0))), ?_⟩
    rw [update_self, entries_setEntry, if_pos ⟨rfl, rfl⟩]
    rfl

/-- A generation can provide a blob to an uplink. -/
def ProvidesBlob (cas : LocalCas Hash) (hash : Hash) (executable skipSync : Bool) : Prop :=
  (cas.objects (blobType executable) hash).isSome ∨ (cas.entries .file hash).isSome ∨
    (skipSync = false ∧ HasBlob cas hash)

theorem localUplinkBlob_of_provided (fuel : Nat) {i : Nat} {hash : Hash}
    {executable skipSync : Bool} (spliceResult : Bool)
    (provided : ((gens 0).objects (blobType executable) hash).isSome ∨
      ProvidesBlob (gens i) hash executable skipSync) :
    ∃ after, localUplinkBlob protocol.hashes (fuel + 2) i hash executable skipSync spliceResult
        gens = (true, after) ∧ Leaves protocol gens after ∧ HasBlob (after 0) hash ∧
      (spliceResult = true → ((after 0).objects (blobType executable) hash).isSome) := by
  unfold localUplinkBlob
  split
  · next available =>
    exact ⟨gens, rfl, Leaves.refl intact, hasBlob_of_object executable available,
      fun _ => available⟩
  · next missing =>
    have kept : ∀ (content : Str) (next : Generations Hash), AllIntact protocol next →
        protocol.hashes.blob content = hash →
        Leaves protocol next (store protocol.hashes 0 (blobType executable) content next) ∧
        ((store protocol.hashes 0 (blobType executable) content next 0).objects
          (blobType executable) hash).isSome := by
      rintro content next complete rfl
      have stored := store_blob_leaves complete 0 executable content
      exact ⟨stored.1, isSome_iff_exists.mpr ⟨content, stored.2⟩⟩
    cases findBlob_cases intact i hash executable skipSync with
    | inl found =>
      obtain ⟨content, next, called, own, leaves⟩ := found
      have stored := kept content next leaves.intact own
      rw [called]
      exact ⟨_, rfl, leaves.trans stored.1, hasBlob_of_object executable stored.2,
        fun _ => stored.2⟩
    | inr none =>
      obtain ⟨called, noObject, noOther⟩ := none
      have listed : ((gens i).entries .file hash).isSome := by
        rcases provided with latest | object | entry | ⟨syncs, file | program | entry⟩
        · exact absurd latest missing
        · rw [noObject] at object
          cases object
        · exact entry
        · rw [show (gens i).objects .file hash = Option.none from noOther syncs false] at file
          cases file
        · rw [show (gens i).objects .executable hash = Option.none from noOther syncs true]
            at program
          cases program
        · exact entry
      obtain ⟨parts, entry⟩ := isSome_iff_exists.mp listed
      obtain ⟨content, own, _, spliced⟩ := trySplice_of_entry intact entry
      rw [called]
      simp only [spliced]
      rw [← own] at entry ⊢
      obtain ⟨next, uplinked, leaves, available⟩ := localUplinkLargeObject_of_entry intact fuel
        entry (fun impossible => by cases impossible)
      simp only [uplinked]
      cases spliceResult with
      | false =>
        exact ⟨next, rfl, leaves, .inr (.inr available), fun impossible => by cases impossible⟩
      | true =>
        have stored := kept content next leaves.intact own
        rw [← own] at stored
        exact ⟨_, rfl, leaves.trans stored.1, hasBlob_of_object executable stored.2,
          fun _ => stored.2⟩

end

theorem localUplinkBlob_of_not_provided (fuel : Nat)
    {hash : Hash} {executable skipSync : Bool} (spliceResult : Bool)
    (missing : ¬ (((gens 0).objects (blobType executable) hash).isSome ∨
      ProvidesBlob (gens i) hash executable skipSync)) :
    localUplinkBlob protocol.hashes (fuel + 1) i hash executable skipSync spliceResult gens =
      (false, gens) := by
  unfold localUplinkBlob
  rw [if_neg fun latest => missing (.inl latest)]
  have noEntry : (gens i).entries .file hash = none :=
    not_isSome_iff_eq_none.mp fun entry => missing (.inr (.inr (.inl entry)))
  have notFound : findBlob protocol.hashes i hash executable skipSync gens = (none, gens) := by
    unfold findBlob
    have noObject : (gens i).objects (blobType executable) hash = none :=
      not_isSome_iff_eq_none.mp fun object => missing (.inr (.inl object))
    split
    · rw [noObject]
    · next syncs =>
      have noInverse : (gens i).objects (blobType !executable) hash = none :=
        not_isSome_iff_eq_none.mp fun object => missing (.inr (.inr (.inr
          ⟨Bool.not_eq_true _ |>.mp syncs, hasBlob_of_object _ object⟩)))
      rw [blobPath, noObject]
      simp only [noInverse]
  rw [notFound]
  simp only [trySplice_of_none noEntry]

end Blobs

/-! ## Trees -/

section Trees

variable [DecidableEq Hash] {protocol : Protocol Hash} {gens : Generations Hash}

variable {hash : Hash}

section

variable (native : protocol.native = true)
include native

omit [DecidableEq Hash] in
theorem treeType_of_native : protocol.treeType = .tree := by
  rw [Protocol.treeType, if_pos native]

theorem treeContent_of_hasTree (intact : AllIntact protocol gens) {i : Nat}
    (provided : HasTree (gens i) hash) :
    ∃ content spliced, treeContent protocol i hash gens = (some (content, spliced), gens) ∧
      protocol.hashes.tree content = hash ∧
      (spliced = true → ∃ parts, (gens i).entries .tree hash = some parts) := by
  unfold treeContent
  rw [treeType_of_native native]
  cases plain : (gens i).objects .tree hash with
  | some content =>
    exact ⟨content, false, rfl, (intact i).addressed .tree hash content plain,
      fun impossible => by cases impossible⟩
  | none =>
    have listed : ((gens i).entries .tree hash).isSome := by
      cases provided with
      | inl object =>
        rw [plain] at object
        cases object
      | inr entry => exact entry
    obtain ⟨parts, entry⟩ := isSome_iff_exists.mp listed
    obtain ⟨content, own, _, spliced⟩ := trySplice_of_entry intact entry
    refine ⟨content, true, ?_, own, fun _ => ⟨parts, entry⟩⟩
    simp only [StorageType.large, spliced, map_some]

theorem treeContent_of_not_hasTree {i : Nat} (missing : ¬ HasTree (gens i) hash) :
    treeContent protocol i hash gens = (none, gens) := by
  have noObject : (gens i).objects .tree hash = none :=
    not_isSome_iff_eq_none.mp fun object => missing (.inl object)
  have noEntry : (gens i).entries .tree hash = none :=
    not_isSome_iff_eq_none.mp fun entry => missing (.inr entry)
  unfold treeContent
  rw [treeType_of_native native, noObject]
  simp only [StorageType.large, trySplice_of_none noEntry, Option.map_none]

/-- Trees are not nested without end. -/
def Ranked (protocol : Protocol Hash) (rank : Hash → Nat) : Prop :=
  ∀ content entries, protocol.readTreeData content = some entries →
    ∀ entry ∈ entries, entry.2 = .tree → rank entry.1 < rank (protocol.hashes.tree content)

theorem localUplinkGitTree_of_provided (ranked : Ranked protocol rank) (fuel : Nat) (i : Nat)
    {depth : Nat} (deep : rank hash < depth) (spliceResult : Bool)
    (intact : AllIntact protocol gens)
    (provided : ((gens 0).objects .tree hash).isSome ∨ HasTree (gens i) hash) :
    ∃ after, localUplinkGitTree protocol (fuel + 2) i depth hash spliceResult gens =
        (true, after) ∧ Leaves protocol gens after ∧ HasTree (after 0) hash ∧
      (spliceResult = true → ((after 0).objects .tree hash).isSome) := by
  induction depth generalizing hash spliceResult gens with
  | zero => omega
  | succ depth step =>
    unfold localUplinkGitTree
    rw [treeType_of_native native]
    split
    · next available =>
      exact ⟨gens, rfl, Leaves.refl intact, .inl available, fun _ => available⟩
    · next missing =>
      have stored : HasTree (gens i) hash := provided.resolve_left missing
      obtain ⟨content, spliced, found, rfl, listed⟩ := treeContent_of_hasTree native intact stored
      obtain ⟨entries, read, complete⟩ := (intact i).trees content stored
      rw [found]
      simp only [read]
      -- each entry is stored in the generation, hence uplinked
      have uplinked := @allOf_true _ _
        (fun (entry : Hash × ObjectType) gens =>
          if entry.2 = .tree then localUplinkGitTree protocol (fuel + 2) i depth entry.1 false gens
          else localUplinkBlob protocol.hashes (fuel + 2) i entry.1 (entry.2 = .executable) false
            false gens)
        (Leaves protocol) (fun entry state => HasEntry (state 0) entry)
        (fun _ _ _ front back => front.trans back)
        (fun _ _ _ has leaves => has.grows (leaves.grow 0))
        gens (fun _ leaves => Leaves.refl leaves.intact) entries
        (by
          intro entry member state leaves
          have here := (complete entry member).grows (leaves.grow i)
          unfold HasEntry at here ⊢
          by_cases isTree : entry.2 = .tree
          · simp only [isTree, ↓reduceIte] at here ⊢
            have below := ranked content entries read entry member isTree
            obtain ⟨after, called, kept, has, _⟩ := step (by omega) false leaves.intact (.inr here)
            exact ⟨after, called, kept, has⟩
          · simp only [isTree, ↓reduceIte] at here ⊢
            obtain ⟨after, called, kept, has, _⟩ := @localUplinkBlob_of_provided _ _ protocol state
              leaves.intact fuel i entry.1 (entry.2 = .executable) false false
              (.inr (.inr (.inr ⟨rfl, here⟩)))
            exact ⟨after, called, kept, has⟩)
        gens (Leaves.refl intact)
      obtain ⟨next, called, leaves, all⟩ := uplinked
      have readable : Readable protocol (next 0) content := ⟨entries, read, all⟩
      simp only [called]
      have large : ∃ after, uplinkSplicedTree protocol (fuel + 2) i
          (protocol.hashes.tree content) spliced next = after ∧ Leaves protocol next after ∧
          (spliced = true → HasTree (after 0) (protocol.hashes.tree content)) := by
        unfold uplinkSplicedTree
        cases spliced with
        | false => exact ⟨next, rfl, Leaves.refl leaves.intact, fun impossible => by cases impossible⟩
        | true =>
          obtain ⟨parts, entry⟩ := listed rfl
          have older := (leaves.grow i).entries _ _ _ entry
          obtain ⟨after, done, kept, available⟩ := @localUplinkLargeObject_of_entry _ _ protocol next
            leaves.intact (fuel + 1) i .tree content parts older (fun _ => readable)
          rw [treeType_of_native native, if_pos rfl]
          refine ⟨after, ?_, kept, fun _ => .inr available⟩
          exact congrArg snd done
      obtain ⟨after, done, kept, spliced_has⟩ := large
      rw [done]
      split
      · next skipped =>
        rw [and_eq_true] at skipped
        refine ⟨after, rfl, leaves.trans kept, spliced_has skipped.1, ?_⟩
        intro wanted
        rw [wanted] at skipped
        cases skipped.2
      · have final := @store_leaves _ _ protocol after kept.intact 0 .tree content
          (fun _ => readable.grows (kept.grow 0))
        have isSome : ((store protocol.hashes 0 .tree content after 0).objects .tree
            (protocol.hashes.tree content)).isSome :=
          isSome_iff_exists.mpr ⟨content, final.2⟩
        exact ⟨_, rfl, leaves.trans (kept.trans final.1), .inl isSome, fun _ => isSome⟩

theorem localUplinkGitTree_of_not_provided (fuel i depth : Nat) (spliceResult : Bool)
    (missing : ¬ (((gens 0).objects .tree hash).isSome ∨ HasTree (gens i) hash)) :
    localUplinkGitTree protocol fuel i depth hash spliceResult gens = (false, gens) := by
  cases depth with
  | zero => rfl
  | succ depth =>
    unfold localUplinkGitTree
    rw [treeType_of_native native, if_neg fun latest => missing (.inl latest),
      treeContent_of_not_hasTree native fun stored => missing (.inr stored)]

end

/-! ## Transitive closures -/

/-- The content of a tree, as it is stored or spliced. -/
def TreeStored (protocol : Protocol Hash) (cas : LocalCas Hash) (content : Str) : Prop :=
  cas.objects .tree (protocol.hashes.tree content) = some content ∨
    ∃ parts, cas.entries .tree (protocol.hashes.tree content) = some parts ∧
      Splices cas parts content

/-- The content of a blob, as it is stored or spliced. -/
def BlobStored (protocol : Protocol Hash) (cas : LocalCas Hash) (content : Str) : Prop :=
  (∃ executable, cas.objects (blobType executable) (protocol.hashes.blob content) = some content) ∨
    ∃ parts, cas.entries .file (protocol.hashes.blob content) = some parts ∧
      Splices cas parts content

/-- An object is stored with all it refers to. -/
inductive Closed (protocol : Protocol Hash) (cas : LocalCas Hash) : Hash × ObjectType → Prop where
  | blob (content : Str) (type : ObjectType) (isBlob : type ≠ .tree)
      (stored : BlobStored protocol cas content) :
      Closed protocol cas (protocol.hashes.blob content, type)
  | tree (content : Str) (entries : List (Hash × ObjectType))
      (stored : TreeStored protocol cas content)
      (read : protocol.readTreeData content = some entries)
      (all : ∀ entry ∈ entries, Closed protocol cas entry) :
      Closed protocol cas (protocol.hashes.tree content, .tree)

section
omit [DecidableEq Hash]

theorem blobStored_of_hasBlob (intact : Intact protocol cas) (has : HasBlob cas hash) :
    ∃ content, protocol.hashes.blob content = hash ∧ BlobStored protocol cas content := by
  have object : ∀ executable, (cas.objects (blobType executable) hash).isSome →
      ∃ content, protocol.hashes.blob content = hash ∧ BlobStored protocol cas content := by
    intro executable stored
    obtain ⟨content, found⟩ := isSome_iff_exists.mp stored
    have own := intact.addressed _ hash content found
    rw [blobType_large] at own
    refine ⟨content, own, .inl ⟨executable, ?_⟩⟩
    rw [show protocol.hashes.blob content = hash from own]
    exact found
  rcases has with file | program | entry
  · exact object false file
  · exact object true program
  · obtain ⟨parts, listed⟩ := isSome_iff_exists.mp entry
    obtain ⟨content, rfl, splices⟩ := intact.entries .file hash parts listed
    exact ⟨content, rfl, .inr ⟨parts, listed, splices⟩⟩

theorem treeStored_of_hasTree (intact : Intact protocol cas) (has : HasTree cas hash) :
    ∃ content, protocol.hashes.tree content = hash ∧ TreeStored protocol cas content := by
  cases has with
  | inl stored =>
    obtain ⟨content, found⟩ := isSome_iff_exists.mp stored
    have own : protocol.hashes.tree content = hash := intact.addressed .tree hash content found
    refine ⟨content, own, .inl ?_⟩
    rw [own]
    exact found
  | inr entry =>
    obtain ⟨parts, listed⟩ := isSome_iff_exists.mp entry
    obtain ⟨content, rfl, splices⟩ := intact.entries .tree hash parts listed
    exact ⟨content, rfl, .inr ⟨parts, listed, splices⟩⟩

theorem closed_of_intact (ranked : Ranked protocol rank) (intact : Intact protocol cas)
    {bound : Nat} {entry : Hash × ObjectType} (below : entry.2 = .tree → rank entry.1 < bound)
    (has : HasEntry cas entry) : Closed protocol cas entry := by
  induction bound generalizing entry with
  | zero =>
    obtain ⟨hash, type⟩ := entry
    unfold HasEntry at has
    split at has
    · next isTree => exact absurd (below isTree) (Nat.not_lt_zero _)
    · next isBlob =>
      obtain ⟨content, rfl, stored⟩ := blobStored_of_hasBlob intact has
      exact .blob content type isBlob stored
  | succ bound step =>
    obtain ⟨hash, type⟩ := entry
    unfold HasEntry at has
    split at has
    · next isTree =>
      obtain ⟨content, rfl, stored⟩ := treeStored_of_hasTree intact has
      obtain ⟨entries, read, all⟩ := intact.trees content has
      have isTree : type = .tree := isTree
      subst isTree
      refine .tree content entries stored read ?_
      intro inner member
      refine step ?_ (all inner member)
      intro innerTree
      have smaller := ranked content entries read inner member innerTree
      have bounded := below rfl
      simp only at bounded
      omega
    · next isBlob =>
      obtain ⟨content, rfl, stored⟩ := blobStored_of_hasBlob intact has
      exact .blob content type isBlob stored

end

end Trees

/-! ## All generations -/

/-- The uplink operations of a storage. -/
inductive Operation (Hash : Type) where
  | blob (hash : Hash) (executable : Bool)
  | tree (hash : Hash)
  | largeBlob (hash : Hash)
  | largeTree (hash : Hash)

/-- The hash of the object. -/
def Operation.hash {Hash : Type} : Operation Hash → Hash
  | .blob hash _ | .tree hash | .largeBlob hash | .largeTree hash => hash

/-- A generation can provide the object. Blobs are not synchronised between the x-bits. -/
def Provides (cas : LocalCas Hash) : Operation Hash → Prop
  | .blob hash executable => ProvidesBlob cas hash executable true
  | .tree hash => HasTree cas hash
  | .largeBlob hash => (cas.entries .file hash).isSome
  | .largeTree hash => (cas.entries .tree hash).isSome

/-- A large entry is there with its parts. -/
def HasEntryParts (protocol : Protocol Hash) (cas : LocalCas Hash) (type : LargeType) (hash : Hash) :
    Prop :=
  ∃ parts content, cas.entries type hash = some parts ∧ Splices cas parts content ∧
    protocol.hashes.ofLarge type content = hash

/-- The object is available with all it refers to. -/
def Available (protocol : Protocol Hash) (cas : LocalCas Hash) : Operation Hash → Prop
  | .blob hash executable => (cas.objects (blobType executable) hash).isSome
  | .tree hash => (cas.objects .tree hash).isSome ∧ Closed protocol cas (hash, .tree)
  | .largeBlob hash => HasEntryParts protocol cas .file hash
  | .largeTree hash => HasEntryParts protocol cas .tree hash ∧ Closed protocol cas (hash, .tree)

/-- What an operation promises: what some generation provides is available in the youngest one with
all it refers to, nothing else is reported, and all generations are complete again. -/
structure Correct (protocol : Protocol Hash) (count : Nat) (operation : Operation Hash)
    (before : Generations Hash) (outcome : Bool × Generations Hash) : Prop where
  provided : (∃ i < count, Provides (before i) operation) →
    outcome.1 = true ∧ Available protocol (outcome.2 0) operation
  missing : (¬ ∃ i < count, Provides (before i) operation) → outcome.1 = false
  intact : AllIntact protocol outcome.2

/-- A large entry is wanted that only older generations have. -/
def OnlyOlderEntry (count : Nat) (gens : Generations Hash) : Operation Hash → Prop
  | .blob _ _ | .tree _ => False
  | .largeBlob hash =>
    (gens 0).entries .file hash = none ∧ ∃ i < count, ((gens i).entries .file hash).isSome
  | .largeTree hash =>
    (gens 0).entries .tree hash = none ∧ ∃ i < count, ((gens i).entries .tree hash).isSome

section Operations

variable [DecidableEq Hash] {protocol : Protocol Hash} {gens : Generations Hash}

/-- The operation, and whether it reports the object as available. -/
def Operation.run (protocol : Protocol Hash) (fuel count depth : Nat) (operation : Operation Hash)
    (gens : Generations Hash) : Bool × Generations Hash :=
  match operation with
  | .blob hash executable => uplinkBlob protocol fuel count hash executable gens
  | .tree hash => uplinkTree protocol fuel count depth hash gens
  | .largeBlob hash =>
    let (entry, gens) := getEntryPath protocol fuel count false depth hash gens
    (entry.isSome, gens)
  | .largeTree hash =>
    let (entry, gens) := getEntryPath protocol fuel count true depth hash gens
    (entry.isSome, gens)

omit [DecidableEq Hash] in
theorem anyOf_correct {operation : Operation Hash}
    {call : Nat → Generations Hash → Bool × Generations Hash} (intact : AllIntact protocol gens)
    (succeeds : Nat → Prop)
    (same : (∃ i < count, succeeds i) ↔ ∃ i < count, Provides (gens i) operation)
    (works : ∀ i, succeeds i → ∃ after, call i gens = (true, after) ∧ Leaves protocol gens after ∧
      Available protocol (after 0) operation)
    (fails : ∀ i, ¬ succeeds i → call i gens = (false, gens)) :
    Correct protocol count operation gens (anyOf call (List.range count) gens) := by
  have result : ∀ i, succeeds i → (call i gens).1 = true := by
    intro i success
    obtain ⟨after, called, _⟩ := works i success
    rw [called]
  cases anyOf_eq result fails (List.range count) with
  | inl found =>
    obtain ⟨i, member, success, called⟩ := found
    obtain ⟨after, outcome, leaves, available⟩ := works i success
    rw [called, outcome]
    refine ⟨fun _ => ⟨rfl, available⟩, fun missing => ?_, leaves.intact⟩
    exact absurd (same.mp ⟨i, List.mem_range.mp member, success⟩) missing
  | inr none =>
    rw [none.2]
    refine ⟨fun provided => ?_, fun _ => rfl, intact⟩
    obtain ⟨i, below, success⟩ := same.mpr provided
    exact absurd success (none.1 i (List.mem_range.mpr below))

theorem uplinkBlob_correct (intact : AllIntact protocol gens) (fuel : Nat) (positive : 0 < count)
    (hash : Hash) (executable : Bool) : Correct protocol count (.blob hash executable) gens
      (uplinkBlob protocol (fuel + 2) count hash executable gens) := by
  refine anyOf_correct intact (fun i => ((gens 0).objects (blobType executable) hash).isSome ∨
    ProvidesBlob (gens i) hash executable true) ?_ ?_ ?_
  · constructor
    · rintro ⟨i, below, latest | older⟩
      · exact ⟨0, positive, .inl latest⟩
      · exact ⟨i, below, older⟩
    · rintro ⟨i, below, older⟩
      exact ⟨i, below, .inr older⟩
  · intro i provided
    obtain ⟨after, called, leaves, _, available⟩ :=
      localUplinkBlob_of_provided intact fuel true provided
    exact ⟨after, called, leaves, available rfl⟩
  · intro i missing
    exact localUplinkBlob_of_not_provided (fuel + 1) true missing

theorem uplinkTree_correct (native : protocol.native = true) (ranked : Ranked protocol rank)
    (intact : AllIntact protocol gens) (fuel : Nat) (positive : 0 < count) {depth : Nat}
    {hash : Hash} (deep : rank hash < depth) : Correct protocol count (.tree hash) gens
      (uplinkTree protocol (fuel + 2) count depth hash gens) := by
  refine anyOf_correct intact (fun i => ((gens 0).objects .tree hash).isSome ∨
    HasTree (gens i) hash) ?_ ?_ ?_
  · constructor
    · rintro ⟨i, below, latest | older⟩
      · exact ⟨0, positive, .inl latest⟩
      · exact ⟨i, below, older⟩
    · rintro ⟨i, below, older⟩
      exact ⟨i, below, .inr older⟩
  · intro i provided
    obtain ⟨after, called, leaves, has, available⟩ :=
      localUplinkGitTree_of_provided native ranked fuel i deep true intact provided
    refine ⟨after, ?_, leaves, available rfl, ?_⟩
    · rw [localUplinkTree, if_pos native]
      exact called
    · exact closed_of_intact ranked (leaves.intact 0) (fun _ => Nat.lt_succ_self _) has
  · intro i missing
    rw [localUplinkTree, if_pos native]
    exact localUplinkGitTree_of_not_provided native (fuel + 2) i depth true missing

theorem getEntryPath_eq (native : protocol.native = true) (fuel : Nat) (positive : 0 < count)
    (isTree : Bool) (depth : Nat) (hash : Hash) :
    getEntryPath protocol fuel count isTree depth hash gens =
      ((gens 0).entries (if isTree then .tree else .file) hash, gens) := by
  have youngest : uplinkLargeBlob protocol fuel count hash gens = (true, gens) := by
    obtain ⟨others, rfl⟩ := Nat.exists_eq_add_of_lt positive
    have first : localUplinkLargeObject
        (fun part => localUplinkBlob protocol.hashes fuel 0 part false true false) 0 .file hash
        gens = (true, gens) := by
      unfold localUplinkLargeObject
      split
      · rfl
      · next missing => rw [not_isSome_iff_eq_none.mp missing]
    rw [uplinkLargeBlob, Nat.zero_add, List.range_succ_eq_map, anyOf, first]
  unfold getEntryPath
  rw [treeType_of_native native]
  simp only [StorageType.large, native, Bool.not_true, Bool.and_false, false_eq_true,
    ↓reduceIte, youngest]
  cases (gens 0).entries (if isTree then .tree else .file) hash with
  | none => rfl
  | some parts => rfl

omit [DecidableEq Hash] in
theorem hasEntryParts_of_intact (intact : Intact protocol cas) {type : LargeType} {hash : Hash}
    (listed : (cas.entries type hash).isSome) : HasEntryParts protocol cas type hash := by
  obtain ⟨parts, entry⟩ := isSome_iff_exists.mp listed
  obtain ⟨content, own, splices⟩ := intact.entries type hash parts entry
  exact ⟨parts, content, entry, splices, own⟩

/-- An uplink does what it promises if and only if it does not want a large entry that only older
generations have. -/
theorem uplink_correct_iff (native : protocol.native = true) {rank : Hash → Nat}
    (ranked : Ranked protocol rank) (intact : AllIntact protocol gens) (fuel : Nat) {count : Nat}
    (positive : 0 < count) {depth : Nat} (operation : Operation Hash)
    (deep : rank operation.hash < depth) :
    Correct protocol count operation gens (operation.run protocol (fuel + 2) count depth gens) ↔
      ¬ OnlyOlderEntry count gens operation := by
  cases operation with
  | blob hash executable =>
    exact ⟨fun _ impossible => impossible,
      fun _ => uplinkBlob_correct intact fuel positive hash executable⟩
  | tree hash =>
    exact ⟨fun _ impossible => impossible,
      fun _ => uplinkTree_correct native ranked intact fuel positive deep⟩
  | largeBlob hash =>
    rw [Operation.run, getEntryPath_eq native (fuel + 2) positive]
    constructor
    · intro correct onlyOlder
      have reported := (correct.provided onlyOlder.2).1
      simp only [false_eq_true, ↓reduceIte, onlyOlder.1, Option.isSome_none] at reported
    · intro young
      have found : (∃ i < count, Provides (gens i) (.largeBlob hash)) →
          ((gens 0).entries .file hash).isSome := by
        intro provided
        by_contra missing
        exact young ⟨not_isSome_iff_eq_none.mp missing, provided⟩
      refine ⟨fun provided => ⟨found provided, ?_⟩, fun missing => ?_, intact⟩
      · exact hasEntryParts_of_intact (intact 0) (found provided)
      · exact Bool.not_eq_true _ |>.mp fun listed => missing ⟨0, positive, listed⟩
  | largeTree hash =>
    rw [Operation.run, getEntryPath_eq native (fuel + 2) positive]
    constructor
    · intro correct onlyOlder
      have reported := (correct.provided onlyOlder.2).1
      simp only [↓reduceIte, onlyOlder.1, Option.isSome_none, false_eq_true] at reported
    · intro young
      have found : (∃ i < count, Provides (gens i) (.largeTree hash)) →
          ((gens 0).entries .tree hash).isSome := by
        intro provided
        by_contra missing
        exact young ⟨not_isSome_iff_eq_none.mp missing, provided⟩
      refine ⟨fun provided => ⟨found provided, ?_, ?_⟩, fun missing => ?_, intact⟩
      · exact hasEntryParts_of_intact (intact 0) (found provided)
      · exact closed_of_intact ranked (intact 0) (fun _ => Nat.lt_succ_self _)
          (.inr (found provided))
      · exact Bool.not_eq_true _ |>.mp fun listed => missing ⟨0, positive, listed⟩

end Operations

/-! ## An older large entry -/

/-- A protocol with blobs and trees under their own content, without entries in trees. -/
def plainProtocol : Protocol Str where
  native := true
  hashes := Compactification.plainHashes
  readTreeData _ := some []
  readDirectory _ := none

/-- An older generation has a large entry with two parts. -/
def olderEntry : Generations Str := fun i =>
  { objects := fun type hash =>
      if i = 1 ∧ type = .file ∧ (hash = [1] ∨ hash = [2]) then some hash else none
    entries := fun type hash =>
      if i = 1 ∧ type = .file ∧ hash = [1, 2] then some [[1], [2]] else none }

theorem olderEntry_intact : AllIntact plainProtocol olderEntry := by
  intro i
  refine ⟨?_, ?_, ?_⟩
  · intro type hash content stored
    obtain ⟨⟨_, rfl, _⟩, same⟩ := Option.ite_none_right_eq_some.mp stored
    exact (some.inj same).symm
  · intro type hash parts entry
    obtain ⟨⟨rfl, rfl, rfl⟩, same⟩ := Option.ite_none_right_eq_some.mp entry
    cases same
    exact ⟨[1, 2], rfl, [[1], [2]], rfl, rfl⟩
  · intro content _
    exact ⟨[], rfl, fun _ impossible => by cases impossible⟩

theorem plainProtocol_ranked : Ranked plainProtocol fun _ => 0 := by
  intro content entries read entry member
  cases read
  cases member

theorem uplink_older_part :
    Correct plainProtocol 2 (.blob [1] false) olderEntry
        (Operation.run plainProtocol 2 2 1 (.blob [1] false) olderEntry) ↔
      ¬ OnlyOlderEntry 2 olderEntry (.blob [1] false) :=
  uplink_correct_iff rfl plainProtocol_ranked olderEntry_intact 0 (by decide) (.blob [1] false)
    (by decide)

theorem older_entry_not_found :
    ¬ ∀ (operation : Operation Str) (gens : Generations Str), AllIntact plainProtocol gens →
      Correct plainProtocol 2 operation gens (operation.run plainProtocol 2 2 1 gens) := by
  intro always
  have correct := always (.largeBlob [1, 2]) olderEntry olderEntry_intact
  have reported := (correct.provided ⟨1, by decide, rfl⟩).1
  rw [Operation.run, getEntryPath_eq rfl 2 (by decide)] at reported
  cases reported

end Jst.Verif.Uplinking
