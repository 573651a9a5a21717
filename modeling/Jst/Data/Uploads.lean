import Mathlib.Algebra.GroupWithZero.Nat
import Mathlib.Data.List.Basic
import Mathlib.Logic.Relation
/-!
# Uploads to a content-addressed store

Blobs are sent to a store that keeps them under their keys. A blob may need others; uploads go
content first if every blob is sent after all that it needs. Then a store in which everything has
what it needs stays so after every single upload. Blobs are collected in containers of limited size.
-/
namespace Jst.Uploads

/-- A store, as far as blobs are sent to it. -/
structure Endpoint (Blob Key World : Type) where
  missing : List Key → World → List Key × World
  /-- Whether all blobs are stored, and the blobs that are stored one after the other. -/
  upload : List Blob → World → Bool × List Blob × World

/-- The world, and the blobs that have been stored so far. -/
structure Sent (Blob World : Type) where
  world : World
  uploaded : List Blob

variable {Blob Key World : Type}

namespace Endpoint

variable (endpoint : Endpoint Blob Key World)

/-- An upload, with the stored blobs written down. -/
def send (blobs : List Blob) (state : Sent Blob World) : Bool × Sent Blob World :=
  let (success, stored, world) := endpoint.upload blobs state.world
  (success, ⟨world, state.uploaded ++ stored⟩)

/-- Put a blob in a container that never holds more than a limit. A blob above the limit is uploaded
alone, and a container is uploaded when it becomes too large. -/
def collect (limit : Nat) (size : Blob → Nat) (same : Blob → Blob → Bool) (container : List Blob)
    (blob : Blob) (state : Sent Blob World) : Bool × List Blob × Sent Blob World :=
  if limit < size blob then
    let (success, state) := endpoint.send [blob] state
    (success, container, state)
  else if container.any (same blob) then (true, container, state)
  else if limit < (container.map size).sum + size blob then
    let (success, state) := endpoint.send container state
    (success, if success then [blob] else [], state)
  else (true, container ++ [blob], state)

end Endpoint

/-- What a store answers, and what it does on an upload. -/
structure Behaves (endpoint : Endpoint Blob Key World) (key : Blob → Key)
    (stored : World → Key → Prop) : Prop where
  missing : ∀ keys world, ∀ other ∈ keys, other ∉ (endpoint.missing keys world).1 → stored world other
  missing_same : ∀ keys world, stored (endpoint.missing keys world).2 = stored world
  upload_subset : ∀ blobs world, (endpoint.upload blobs world).2.1 ⊆ blobs
  upload_stored : ∀ blobs world other, stored (endpoint.upload blobs world).2.2 other ↔
    stored world other ∨ ∃ blob ∈ (endpoint.upload blobs world).2.1, key blob = other
  upload_success : ∀ blobs world, (endpoint.upload blobs world).1 = true → ∀ blob ∈ blobs,
    stored (endpoint.upload blobs world).2.2 (key blob)

/-- What is stored after some uploads. -/
def after (key : Blob → Key) (start : Key → Prop) (uploaded : List Blob) (other : Key) : Prop :=
  start other ∨ ∃ blob ∈ uploaded, key blob = other

/-- All that a blob needs is stored. -/
def Ready (needs : Blob → Key → Prop) (stored : Key → Prop) (blob : Blob) : Prop :=
  ∀ other, needs blob other → stored other

/-- Every stored blob has all that it needs stored. -/
def Closed (key : Blob → Key) (needs : Blob → Key → Prop) (stored : Key → Prop) : Prop :=
  ∀ blob, stored (key blob) → Ready needs stored blob

/-- Every upload is one of a blob that has all that it needs stored before. -/
def ContentFirst (key : Blob → Key) (needs : Blob → Key → Prop) (start : Key → Prop)
    (uploaded : List Blob) : Prop :=
  ∀ front blob back, uploaded = front ++ blob :: back → Ready needs (after key start front) blob

/-- A key needs another one if the blob under it does. -/
def Contains (key : Blob → Key) (needs : Blob → Key → Prop) (above below : Key) : Prop :=
  ∃ blob, key blob = above ∧ needs blob below

variable {key : Blob → Key} {needs : Blob → Key → Prop} {start : Key → Prop}
  {stored : World → Key → Prop} {endpoint : Endpoint Blob Key World} {state : Sent Blob World}

theorem Ready.mono {few many : Key → Prop} {blob : Blob} (ready : Ready needs few blob)
    (more : ∀ other, few other → many other) : Ready needs many blob :=
  fun other needed => more other (ready other needed)

theorem Closed.below {held : Key → Prop} (closed : Closed key needs held) {above below : Key}
    (there : held above) (path : Relation.ReflTransGen (Contains key needs) above below) :
    held below := by
  induction path with
  | refl => exact there
  | tail _ last step =>
    obtain ⟨blob, rfl, needed⟩ := last
    exact closed blob step _ needed

theorem ContentFirst.closed {uploaded front back : List Blob}
    (first : ContentFirst key needs start uploaded)
    (noCollision : ∀ blob other, key blob = key other → needs blob = needs other)
    (closed : Closed key needs start) (split : uploaded = front ++ back) :
    Closed key needs (after key start front) := by
  intro blob there
  cases there with
  | inl old => exact (closed blob old).mono fun _ => .inl
  | inr new =>
    obtain ⟨other, member, same⟩ := new
    obtain ⟨before, behind, rfl⟩ := List.append_of_mem member
    have here := first before other (behind ++ back) (by rw [split]; simp)
    rw [Ready, noCollision other blob same] at here
    refine fun needed needs' => (here needed needs').imp_right ?_
    rintro ⟨sent, inside, isKey⟩
    exact ⟨sent, List.mem_append_left _ inside, isKey⟩

/-- The state of uploads that have been content first so far. -/
structure Good (key : Blob → Key) (needs : Blob → Key → Prop) (stored : World → Key → Prop)
    (start : Key → Prop) (state : Sent Blob World) : Prop where
  stored_iff : ∀ other, stored state.world other ↔ after key start state.uploaded other
  first : ContentFirst key needs start state.uploaded

/-- What a part of the uploads keeps: it goes on content first, and nothing is lost. -/
structure Continues (key : Blob → Key) (needs : Blob → Key → Prop) (stored : World → Key → Prop)
    (start : Key → Prop) (before after : Sent Blob World) : Prop where
  good : Good key needs stored start after
  grows : ∀ other, stored before.world other → stored after.world other

theorem Continues.trans {first second third : Sent Blob World}
    (front : Continues key needs stored start first second)
    (back : Continues key needs stored start second third) :
    Continues key needs stored start first third where
  good := back.good
  grows other old := back.grows other (front.grows other old)

theorem good_start (world : World) :
    Good key needs stored (stored world) (⟨world, []⟩ : Sent Blob World) where
  stored_iff other := by simp [after]
  first front blob back split := absurd split (by simp)

theorem Good.continues (good : Good key needs stored start state) :
    Continues key needs stored start state state := ⟨good, fun _ => id⟩

theorem Good.sameStored (good : Good key needs stored start state) {world : World}
    (same : stored world = stored state.world) :
    Continues key needs stored start state ⟨world, state.uploaded⟩ where
  good := ⟨fun other => by rw [same]; exact good.stored_iff other, good.first⟩
  grows other old := by rw [same]; exact old

theorem continues_send (behaves : Behaves endpoint key stored)
    (good : Good key needs stored start state) {blobs : List Blob}
    (ready : ∀ blob ∈ blobs, Ready needs (stored state.world) blob) :
    Continues key needs stored start state (endpoint.send blobs state).2 ∧
      ((endpoint.send blobs state).1 = true → ∀ blob ∈ blobs,
        stored (endpoint.send blobs state).2.world (key blob)) := by
  have storedAfter := behaves.upload_stored blobs state.world
  refine ⟨⟨⟨fun other => ?_, fun front blob back split => ?_⟩, fun other old => ?_⟩,
    behaves.upload_success blobs state.world⟩
  · refine (storedAfter other).trans ?_
    rw [good.stored_iff]
    simp only [after, Endpoint.send, List.mem_append, or_and_right, exists_or, or_assoc]
  · -- an upload of before, or one of now
    change state.uploaded ++ (endpoint.upload blobs state.world).2.1 = front ++ blob :: back at split
    have now : ∀ middle, front = state.uploaded ++ middle →
        blob ∈ (endpoint.upload blobs state.world).2.1 → Ready needs (after key start front) blob := by
      intro middle same member
      refine (ready blob (behaves.upload_subset blobs state.world member)).mono fun other old => ?_
      refine ((good.stored_iff other).mp old).imp_right ?_
      rintro ⟨sent, inside, isKey⟩
      exact ⟨sent, by rw [same]; exact List.mem_append_left _ inside, isKey⟩
    obtain ⟨middle, same, rest⟩ | ⟨middle, same, rest⟩ := List.append_eq_append_iff.mp split
    · exact now middle same (by rw [rest]; simp)
    · cases middle with
      | nil =>
        rw [List.nil_append] at rest
        rw [List.append_nil] at same
        exact now [] (by rw [same, List.append_nil]) (by rw [← rest]; exact List.mem_cons_self)
      | cons head middle =>
        obtain ⟨rfl, rfl⟩ := List.cons.inj rest
        exact good.first front blob middle same
  · exact (storedAfter other).mpr (.inl old)

/-- A key is stored, or a blob waits in a container for it. -/
def Pending (key : Blob → Key) (stored : Key → Prop) (container : List Blob) (other : Key) : Prop :=
  stored other ∨ ∃ blob ∈ container, key blob = other

variable {container : List Blob}

theorem Pending.mono {few many : Key → Prop} {other : Key}
    (pending : Pending key few container other) (more : ∀ other, few other → many other) :
    Pending key many container other := pending.imp_left (more other)

theorem continues_collect (behaves : Behaves endpoint key stored)
    (good : Good key needs stored start state) {limit : Nat} {size : Blob → Nat}
    {same : Blob → Blob → Bool}
    (sameKey : ∀ blob other, same blob other = true → key other = key blob) {blob : Blob}
    (readyAll : ∀ other ∈ container, Ready needs (stored state.world) other)
    (ready : Ready needs (stored state.world) blob) {success : Bool} {container' : List Blob}
    {state' : Sent Blob World}
    (result : endpoint.collect limit size same container blob state = (success, container', state')) :
    Continues key needs stored start state state' ∧ (success = true →
        (∀ other ∈ container', Ready needs (stored state'.world) other) ∧
        (∀ other, Pending key (stored state.world) container other →
          Pending key (stored state'.world) container' other) ∧
        Pending key (stored state'.world) container' (key blob)) := by
  unfold Endpoint.collect at result
  split at result
  · -- a large blob is uploaded alone
    have readyOne : ∀ other ∈ [blob], Ready needs (stored state.world) other :=
      fun other inside => List.mem_singleton.mp inside ▸ ready
    obtain ⟨continued, all⟩ := continues_send behaves good readyOne
    cases result
    exact ⟨continued, fun success => ⟨fun other inside => (readyAll other inside).mono
      continued.grows, fun other pending => pending.mono continued.grows,
      .inl (all success blob List.mem_cons_self)⟩⟩
  · split at result
    · next known =>
      cases result
      obtain ⟨other, inside, isSame⟩ := List.any_eq_true.mp known
      exact ⟨good.continues, fun _ => ⟨readyAll, fun _ => id,
        .inr ⟨other, inside, sameKey blob other isSame⟩⟩⟩
    · split at result
      · -- the container is full
        obtain ⟨continued, all⟩ := continues_send behaves good readyAll
        cases result
        refine ⟨continued, fun success => ?_⟩
        rw [if_pos success]
        refine ⟨fun other inside => (List.mem_singleton.mp inside ▸ ready).mono continued.grows,
          fun other pending => ?_, .inr ⟨blob, List.mem_cons_self, rfl⟩⟩
        obtain old | ⟨waiting, inside, isKey⟩ := pending
        · exact .inl (continued.grows other old)
        · exact .inl (isKey ▸ all success waiting inside)
      · cases result
        refine ⟨good.continues, fun _ => ⟨fun other inside => ?_, fun other pending => ?_,
          .inr ⟨blob, List.mem_append_right _ List.mem_cons_self, rfl⟩⟩⟩
        · cases List.mem_append.mp inside with
          | inl old => exact readyAll other old
          | inr new => exact List.mem_singleton.mp new ▸ ready
        · exact pending.imp_right fun ⟨waiting, inside, isKey⟩ =>
            ⟨waiting, List.mem_append_left _ inside, isKey⟩

end Jst.Uploads
