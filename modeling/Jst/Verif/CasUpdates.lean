import Jst.Storage.CasServer
import Jst.Verif.ActionUplink
/-!
# Server updates keep trees complete

In every generation, the entries of stored trees are stored, as objects or as large entries with all
their parts. A tree is stored only after its entries have been found, and what is reported as stored
has the announced hash. An uplink looks at the first entry of every id only, which is enough as no
id is that of a blob and a tree.
-/
namespace Jst.Verif.CasUpdates

open Storage Storage.Generations Storage.CasServer Uplinking
open ActionUplink (allOf_spec localUplinkBlob_spec localUplinkGitTree_spec)

variable {Hash : Type} [DecidableEq Hash] (server : CasServer Hash)

/-- A tree whose entries with the same id are all trees or all blobs. -/
def Uniform (content : Str) : Prop :=
  ∃ entries, server.protocol.readTreeData content = some entries ∧
    ∀ left ∈ entries, ∀ right ∈ entries, left.1 = right.1 → (left.2 = .tree ↔ right.2 = .tree)

variable {server} {gens : Generations Hash}

/-- Every tree that is stored was stored before, in some generation. -/
def OldTrees (before after : Generations Hash) : Prop :=
  ∀ i hash, HasTree (after i) hash → ∃ j, HasTree (before j) hash

section
omit [DecidableEq Hash]

theorem OldTrees.refl (gens : Generations Hash) : OldTrees gens gens :=
  fun i _ stored => ⟨i, stored⟩

theorem OldTrees.trans {first second third : Generations Hash} (front : OldTrees first second)
    (back : OldTrees second third) : OldTrees first third := by
  intro i hash stored
  obtain ⟨j, middle⟩ := back i hash stored
  exact front j hash middle

end

variable {before : Generations Hash} {content : Str}

theorem OldTrees.store (kept : OldTrees before gens)
    {hashes : Hashes Hash} (i : Nat) {type : StorageType}
    (old : type = .tree → ∃ j, HasTree (before j) (hashes.tree content)) :
    OldTrees before (store hashes i type content gens) := by
  intro j hash stored
  unfold Generations.store at stored
  split at stored
  · exact kept j hash stored
  · by_cases same : j = i
    · subst same
      rw [update_self] at stored
      cases stored with
      | inr entry => exact kept j hash (.inr entry)
      | inl object =>
        rw [Compactification.objects_setObject] at object
        split at object
        · next here =>
          obtain ⟨rfl, rfl⟩ := here
          exact old rfl
        · exact kept j hash (.inl object)
    · rw [update_of_ne same] at stored
      exact kept j hash stored

theorem OldTrees.storeBlob (kept : OldTrees before gens)
    (hashes : Hashes Hash) (i : Nat) (executable : Bool) (content : Str) :
    OldTrees before (Generations.store hashes i (blobType executable) content gens) :=
  kept.store i fun isTree => absurd isTree (blobType_ne_tree executable)

/-- What a call does: it leaves complete generations, and its answer says something about the
youngest one. -/
structure Does {Answer : Type} (protocol : Protocol Hash) (before : Generations Hash)
    (result : Answer × Generations Hash) (holds : Answer → LocalCas Hash → Prop) : Prop where
  leaves : Leaves protocol before result.2
  answer : holds result.1 (result.2 0)

section Calls

variable {protocol : Protocol Hash}

section
omit [DecidableEq Hash]

theorem Does.after {Answer : Type} {result : Answer × Generations Hash}
    {holds : Answer → LocalCas Hash → Prop} (back : Does protocol gens result holds)
    (front : Leaves protocol before gens) : Does protocol before result holds :=
  ⟨front.trans back.leaves, back.answer⟩

theorem anyOf_does {call : Nat → Generations Hash → Bool × Generations Hash}
    {holds : LocalCas Hash → Prop} (intact : AllIntact protocol gens) (succeeds : Nat → Prop)
    (works : ∀ i, succeeds i → ∃ after, call i gens = (true, after) ∧ Leaves protocol gens after ∧
      holds (after 0))
    (fails : ∀ i, ¬ succeeds i → call i gens = (false, gens)) (items : List Nat) :
    Does protocol gens (anyOf call items gens) fun found cas => found = true → holds cas := by
  have result : ∀ i, succeeds i → (call i gens).1 = true := by
    intro i success
    obtain ⟨after, called, -⟩ := works i success
    rw [called]
  cases anyOf_eq result fails items with
  | inl found =>
    obtain ⟨i, -, success, called⟩ := found
    obtain ⟨after, outcome, leaves, has⟩ := works i success
    rw [called, outcome]
    exact ⟨leaves, fun _ => has⟩
  | inr none =>
    rw [none.2]
    exact ⟨.refl intact, fun absurd' => nomatch absurd'⟩

end

end Calls

/-! ## Lookups -/

/-- The path that is answered leads to a stored object. -/
def Found (type : StorageType) (hash : Hash) (path : Option Str) (cas : LocalCas Hash) : Prop :=
  ∀ content, path = some content → cas.objects type hash = some content

variable (server)

section

variable (intact : AllIntact server.protocol gens) (hash : Hash)
include intact hash

theorem hasBlob_spec (executable : Bool) :
    Does server.protocol gens (server.hasBlob hash executable gens) fun available cas =>
      available = true → (cas.objects (blobType executable) hash).isSome := by
  refine anyOf_does intact (fun i => ((gens 0).objects (blobType executable) hash).isSome ∨
    ProvidesBlob (gens i) hash executable true) ?_ ?_ _
  · intro i provided
    obtain ⟨after, called, leaves, _, available⟩ :=
      localUplinkBlob_of_provided intact 0 true provided
    exact ⟨after, called, leaves, available rfl⟩
  · intro i missing
    exact localUplinkBlob_of_not_provided 1 true missing

end

section

variable (intact : AllIntact server.protocol gens)
include intact

omit [DecidableEq Hash] in
theorem object_of_available {type : StorageType} {content : Str}
    (available : ((gens 0).objects type (server.protocol.hashes.ofLarge type.large content)).isSome) :
    (gens 0).objects type (server.protocol.hashes.ofLarge type.large content) = some content := by
  obtain ⟨stored, object⟩ := isSome_iff_exists.mp available
  rw [object, content_unique (intact 0).addressed object]

theorem storeBlob_spec (content : Str) (executable : Bool) :
    Does server.protocol gens (server.storeBlob content executable gens) fun stored cas =>
      stored = server.protocol.hashes.blob content ∧
        cas.objects (blobType executable) (server.protocol.hashes.blob content) = some content := by
  have found := hasBlob_spec server intact (server.protocol.hashes.blob content) executable
  unfold storeBlob
  simp only
  generalize server.hasBlob (server.protocol.hashes.blob content) executable gens = result
    at found ⊢
  cases result with
  | mk available next =>
    cases available with
    | true =>
      refine ⟨found.leaves, rfl, ?_⟩
      have object := @object_of_available _ server next found.leaves.intact (blobType executable)
        content
      rw [blobType_large] at object
      exact object (found.answer rfl)
    | false =>
      have stored := store_blob_leaves found.leaves.intact 0 executable content
      exact ⟨found.leaves.trans stored.1, rfl, stored.2⟩

end

/-- The storage of an announced object. -/
def announcedType (digest : AnnouncedDigest Hash) : StorageType :=
  if digest.isTree then .tree else .file

/-- A content with the announced hash is stored. -/
def Stores (digest : AnnouncedDigest Hash) (content : Str) (cas : LocalCas Hash) : Prop :=
  server.protocol.hashes.ofLarge (announcedType digest).large content = digest.hash ∧
    cas.objects (announcedType digest) digest.hash = some content

theorem storeParts_spec (chunks : List Str) (intact : AllIntact server.protocol gens) :
    Does server.protocol gens (server.storeParts chunks gens) fun parts cas =>
      Splices cas parts chunks.flatten := by
  induction chunks generalizing gens with
  | nil => exact ⟨.refl intact, [], rfl, rfl⟩
  | cons chunk rest step =>
    have stored := storeBlob_spec server intact chunk false
    have later := step stored.leaves.intact
    obtain ⟨chunks, found, flat⟩ := later.answer
    refine ⟨stored.leaves.trans later.leaves, chunk :: chunks, ?_, ?_⟩
    · have part : ((server.storeParts (chunk :: rest) gens).2 0).objects .file
          (server.storeBlob chunk false gens).1 = some chunk := by
        rw [stored.answer.1]
        exact (later.leaves.grow 0).objects _ _ _ stored.answer.2
      simp only [storeParts, mapM_cons] at part ⊢
      rw [part, found]
      rfl
    · rw [List.flatten_cons, List.flatten_cons, flat]

/-- The storage after some requests. -/
def served (requests : List (Request Hash)) (gens : Generations Hash) : Generations Hash :=
  requests.foldl (fun gens request => (server.serve request gens).2) gens

/-- Nothing is stored. -/
def nothing : Generations (Bool × Str) := fun _ => ⟨fun _ _ => none, fun _ _ => none⟩

end Jst.Verif.CasUpdates
