import Jst.Data.Loops
import Jst.Remote.CasClient
import Mathlib.Data.List.Induction
import Mathlib.Data.List.Nodup
/-!
# Batched transfers are complete

A batch request of a server that the client can rely on is answered for some of its digests, or
fails. For every such server, and whatever other threads do to the limits meanwhile, the transfers
end, their requests are within the limits, the blobs counted as updated are exactly those that the
server has acknowledged, and every blob that was delivered is returned.
-/
namespace Jst.Verif.BatchTransfers

open Remote
open List (any_append any_cons any_eq_true any_nil countP_congr countP_cons)

variable {request : BatchRequest UpdateItem} {updated digests : List BazelDigest}
  {events : List UpdateEvent} {blob : CasBlob}

/-! ## Limits -/

section Limits

variable {World Elem Item Response Content Streamed Result : Type}

variable {itemContent : Item → Nat}

/-- All requests are within the limit of messages and the limit of the content that was set last. -/
def WithinLimits (itemSize itemContent : Item → Nat) :
    Option Nat → List (Event Item Response Streamed) → Prop
  | _, [] => True
  | _, .limit size :: rest => WithinLimits itemSize itemContent (some size) rest
  | limit, .stream _ :: rest => WithinLimits itemSize itemContent limit rest
  | limit, .batch request _ :: rest =>
    request.byteSizeLong itemSize ≤ MessageLimits.maxGrpcLength ∧
      (∃ size, limit = some size ∧ (request.items.map itemContent).sum ≤ size) ∧
      WithinLimits itemSize itemContent limit rest

variable {itemSize : Item → Nat}

theorem withinLimits_append {limit : Option Nat}
    {front back : List (Event Item Response Streamed)} :
    WithinLimits itemSize itemContent limit (front ++ back) ↔
      WithinLimits itemSize itemContent limit front ∧
        WithinLimits itemSize itemContent (front.foldl nextLimit limit) back := by
  induction front generalizing limit with
  | nil => exact ⟨fun back => ⟨trivial, back⟩, And.right⟩
  | cons event rest step =>
    cases event with
    | limit size => exact step
    | stream streamed => exact step
    | batch request reply =>
      simp only [cons_append, WithinLimits, step, foldl_cons, nextLimit, and_assoc]

theorem withinLimits_stream (limit : Option Nat) (streamed : List Streamed) :
    WithinLimits itemSize itemContent limit
      (streamed.map (Event.stream : Streamed → Event Item Response Streamed)) := by
  induction streamed with
  | nil => trivial
  | cons _ _ step => exact step

variable {transfer : Transfer World Elem Item Response Content Streamed Result}

theorem Filled.content (measured : ∀ elem part, transfer.requestCreator elem = some part →
      (part.items.map itemContent).sum = transfer.contentSize elem) {elems : List Elem}
    {request : BatchRequest Item} (filled : Filled transfer elems request) :
    (request.items.map itemContent).sum = getTotalContentSize transfer elems := by
  obtain ⟨parts, all, items⟩ := filled
  rw [items]
  clear items
  induction all with
  | nil => rfl
  | cons created _ step =>
    rw [flatMap_cons, map_append, List.sum_append, measured _ _ created, step]
    rfl

theorem foldl_nextLimit (events : List (Event Item Response Streamed)) (limit : Option Nat) :
    events.foldl nextLimit limit = (currentLimit events).or limit := by
  induction events using List.reverseRecOn with
  | nil => rfl
  | append_singleton front event step =>
    rw [foldl_append, step, currentLimit, currentLimit, foldl_append]
    cases event with
    | limit size => rfl
    | batch request reply => rfl
    | stream streamed => rfl

theorem keeps_withinLimits (measured : ∀ elem part, transfer.requestCreator elem = some part →
      (part.items.map itemContent).sum = transfer.contentSize elem) (elems : List Elem) :
    Keeps transfer elems fun _ events =>
      ∀ limit, WithinLimits transfer.itemSize itemContent limit events := by
  have batch : ∀ {events : List (Event Item Response Streamed)} {request : BatchRequest Item}
      (reply : Reply Response), Prepared transfer elems events request →
      (∀ limit, WithinLimits transfer.itemSize itemContent limit events) →
      ∀ limit, WithinLimits transfer.itemSize itemContent limit
        (events ++ [.batch request reply]) := by
    intro events request reply prepared before limit
    obtain ⟨size, taken, current, _, filled, content⟩ := prepared.content
    have last : events.foldl nextLimit limit = some size := by
      rw [foldl_nextLimit, current]
      rfl
    exact withinLimits_append.mpr ⟨before limit, prepared.size,
      ⟨size, last, (Filled.content measured filled).le.trans content⟩, trivial⟩
  exact
    { accepted := fun prepared _ => batch _ prepared
      rejected := fun prepared _ => batch _ prepared
      limited := fun size before limit => withinLimits_append.mpr ⟨before limit, trivial⟩
      streamed := fun _ _ before limit =>
        withinLimits_append.mpr ⟨before limit, withinLimits_stream _ _⟩ }

end Limits

/-! ## Replies -/

/-- A server that replies to a batch request for some of its digests, or with an error. -/
structure Replies {World : Type} (server : CasServer World) : Prop where
  update : ∀ world request responses,
    (server.batchUpdate world request).1 = .responses responses → ∀ response ∈ responses,
      response.1 = .ok ∧ ∃ item ∈ request.items, item.digest.hash = response.2.hash
  read : ∀ world request responses,
    (server.batchRead world request).1 = .responses responses → ∀ response ∈ responses,
      response.1 = .ok

theorem processBatchResponse_ok {Response Content : Type}
    (inserter : List Content → Response → List Content) {responses : List (StatusCode × Response)}
    (fine : ∀ response ∈ responses, response.1 = .ok) (output : List Content) :
    processBatchResponse inserter responses output =
      .ok ((responses.map snd).foldl inserter output) := by
  induction responses generalizing output with
  | nil => rfl
  | cons response rest step =>
    obtain ⟨code, value⟩ := response
    have here : code = .ok := fine _ mem_cons_self
    rw [processBatchResponse, if_pos here, step (forall_mem_cons.mp fine).2]
    rfl

/-! ## Counting updated blobs -/

/-- The server acknowledges a digest with an event. -/
def acknowledges (digest : BazelDigest) : UpdateEvent → Bool
  | .batch _ (.responses responses) =>
    responses.any fun response => response.1 = .ok && response.2.hash == digest.hash
  | .stream (blob, written) => written && blob.digest.hash == digest.hash
  | .batch _ (.failed _) | .limit _ => false

/-- The server acknowledges a blob during a run. -/
def acknowledged (events : List UpdateEvent) (blob : CasBlob) : Bool :=
  events.any (acknowledges blob.digest)

theorem containsDigest_iff {digest : BazelDigest} :
    containsDigest digests digest = true ↔ digest.hash ∈ digests.map BazelDigest.hash := by
  simp only [containsDigest, any_eq_true, beq_iff_eq, mem_map]

variable {others : List BazelDigest}

theorem mem_insertDigests {hash : Str} :
    hash ∈ (insertDigests digests others).map BazelDigest.hash ↔
      hash ∈ digests.map BazelDigest.hash ∨ hash ∈ others.map BazelDigest.hash := by
  induction others generalizing digests with
  | nil => simp [insertDigests]
  | cons digest rest step =>
    rw [insertDigests, foldl_cons]
    refine (@step (if containsDigest digests digest then digests else digests ++ [digest])).trans ?_
    split
    · next present =>
      rw [containsDigest_iff] at present
      rw [map_cons, mem_cons]
      constructor
      · exact Or.imp_right .inr
      · intro found
        rcases found with before | here | later
        · exact .inl before
        · exact .inl (here ▸ present)
        · exact .inr later
    · rw [map_append, mem_append, List.map_singleton, mem_singleton, map_cons, mem_cons, or_assoc]

theorem nodup_insertDigests (once : (digests.map BazelDigest.hash).Nodup) :
    ((insertDigests digests others).map BazelDigest.hash).Nodup := by
  induction others generalizing digests with
  | nil => exact once
  | cons digest rest step =>
    rw [insertDigests, foldl_cons]
    refine @step (if containsDigest digests digest then digests else digests ++ [digest]) ?_
    split
    · exact once
    · next absent =>
      rw [containsDigest_iff] at absent
      rw [map_append, List.map_singleton]
      exact List.Nodup.append once (List.nodup_singleton _)
        (List.disjoint_singleton.mpr absent)

section Update

variable {World : Type} {server : CasServer World} {instanceName : Str} {attempts : Nat}

/-- What is inserted into the set of updated digests is what the server acknowledges. -/
structure Counted (blobs : List CasBlob) (updated : List BazelDigest) (events : List UpdateEvent) :
    Prop where
  once : (updated.map BazelDigest.hash).Nodup
  requested : ∀ hash ∈ updated.map BazelDigest.hash, ∃ blob ∈ blobs, blob.digest.hash = hash
  exact : ∀ digest, events.any (acknowledges digest) = true ↔
    digest.hash ∈ updated.map BazelDigest.hash

variable {blobs : List CasBlob}

theorem Prepared.requested
    (prepared : Prepared (updateTransfer server instanceName) blobs events request)
    {item : UpdateItem} (member : item ∈ request.items) :
    ∃ blob ∈ blobs, blob.digest.hash = item.digest.hash := by
  obtain ⟨_, taken, _, inside, ⟨parts, all, items⟩, _⟩ := prepared.content
  rw [items, List.mem_flatMap] at member
  obtain ⟨part, chosen, member⟩ := member
  obtain ⟨blob, found, created⟩ := Loops.exists_of_mem_mapM (Loops.mapM_eq_some.mpr all) chosen
  obtain ⟨content, _, rfl⟩ := map_eq_some_iff.mp created
  rw [mem_singleton.mp member]
  exact ⟨blob, inside found, rfl⟩

theorem foldl_append_singleton (digests output : List BazelDigest) :
    digests.foldl (fun output digest => output ++ [digest]) output = output ++ digests := by
  induction digests generalizing output with
  | nil => exact (append_nil output).symm
  | cons digest rest step => rw [foldl_cons, step, append_assoc, singleton_append]

theorem replyContents_update (replies : Replies server) {world : World}
    {contents : List BazelDigest} (accepted : replyContents (updateTransfer server instanceName)
      (server.batchUpdate world request).1 = some contents) :
    (∀ digest, acknowledges digest (.batch request (server.batchUpdate world request).1) = true ↔
      digest.hash ∈ contents.map BazelDigest.hash) ∧
    ∀ hash ∈ contents.map BazelDigest.hash, ∃ item ∈ request.items, item.digest.hash = hash := by
  have fine := replies.update world request
  cases reply : (server.batchUpdate world request).1 with
  | failed code =>
    rw [reply] at accepted
    cases accepted
  | responses responses =>
    rw [reply] at accepted
    have all := fine responses reply
    have digests : contents = responses.map snd := by
      have processed := processBatchResponse_ok (updateTransfer server instanceName).inserter
        (fun response member => (all response member).1) []
      simp only [replyContents, processed, Except.toOption, some.injEq] at accepted
      rw [← accepted]
      show List.foldl (fun digests digest => digests ++ [digest]) [] _ = _
      rw [foldl_append_singleton, nil_append]
    rw [digests]
    constructor
    · intro digest
      simp only [acknowledges, any_eq_true, and_eq_true, decide_eq_true_eq, beq_iff_eq,
        map_map, mem_map, Function.comp]
      constructor
      · rintro ⟨response, member, _, same⟩
        exact ⟨response, member, same⟩
      · rintro ⟨response, member, same⟩
        exact ⟨response, member, (all response member).1, same⟩
    · intro hash member
      rw [map_map, mem_map] at member
      obtain ⟨response, member, rfl⟩ := member
      exact (all response member).2

theorem acknowledges_rejected (replies : Replies server) {world : World} (digest : BazelDigest)
    (rejected : replyContents (updateTransfer server instanceName)
      (server.batchUpdate world request).1 = none) :
    acknowledges digest (.batch request (server.batchUpdate world request).1) = false := by
  cases reply : (server.batchUpdate world request).1 with
  | failed code => rfl
  | responses responses =>
    have processed := processBatchResponse_ok (updateTransfer server instanceName).inserter
      (fun response member => (replies.update world request responses reply response member).1) []
    rw [reply] at rejected
    simp only [replyContents, processed, Except.toOption] at rejected
    cases rejected

theorem keeps_counted (replies : Replies server) (blobs : List CasBlob) :
    Keeps (updateTransfer server instanceName) blobs (Counted blobs) where
  accepted := by
    intro updated events request world contents prepared accepted counted
    obtain ⟨acknowledged, wanted⟩ := replyContents_update replies accepted
    constructor
    · exact nodup_insertDigests counted.once
    · intro hash member
      cases mem_insertDigests.mp member with
      | inl before => exact counted.requested hash before
      | inr here =>
        obtain ⟨item, inside, same⟩ := wanted hash here
        exact same ▸ Prepared.requested prepared inside
    · intro digest
      rw [any_append, or_eq_true, counted.exact, any_cons, any_nil, Bool.or_false]
      exact (or_congr_right (acknowledged digest)).trans mem_insertDigests.symm
  rejected := by
    intro updated events request world _ rejected counted
    exact
      { once := counted.once
        requested := counted.requested
        exact := fun digest => by
          have none := acknowledges_rejected replies digest rejected
          rw [any_append, or_eq_true, counted.exact, any_cons, any_nil, Bool.or_false]
          exact or_iff_left (Bool.eq_false_iff.mp none) }
  limited size counted :=
    { once := counted.once
      requested := counted.requested
      exact := fun digest => by
        rw [any_append, ← counted.exact]
        simp [acknowledges] }
  streamed {updated events blob} world _ counted := by
    have none : ((updateTransfer server instanceName).fallback blob updated world).2.1 = [] := rfl
    rw [none, map_nil, append_nil]
    exact counted

theorem countP_containsDigest (distinct : (blobs.map fun blob => blob.digest.hash).Nodup)
    (once : (updated.map BazelDigest.hash).Nodup)
    (requested : ∀ hash ∈ updated.map BazelDigest.hash, ∃ blob ∈ blobs, blob.digest.hash = hash) :
    blobs.countP (fun blob => containsDigest updated blob.digest) = updated.length := by
  have same : ((blobs.map fun blob => blob.digest.hash).filter fun hash =>
      decide (hash ∈ updated.map BazelDigest.hash)).Perm (updated.map BazelDigest.hash) := by
    refine (List.perm_ext_iff_of_nodup (distinct.filter _) once).mpr fun hash => ?_
    rw [mem_filter, mem_map, decide_eq_true_eq]
    exact ⟨And.right, fun member => ⟨requested hash member, member⟩⟩
  have lengths := same.length_eq
  rw [length_map, ← List.countP_eq_length_filter, List.countP_map] at lengths
  rw [← lengths]
  refine countP_congr fun blob _ => ?_
  rw [containsDigest_iff, Function.comp, decide_eq_true_eq]

theorem updateSingleBlobs_count {blobs : List CasBlob}
    (distinct : (blobs.map fun blob => blob.digest.hash).Nodup) (world : World) :
    (updateSingleBlobs server blobs world).1 =
        blobs.countP (acknowledged (updateSingleBlobs server blobs world).2.1) ∧
      (∃ streamed : List (CasBlob × Bool),
        (updateSingleBlobs server blobs world).2.1 = streamed.map .stream) ∧
      ∀ digest, (updateSingleBlobs server blobs world).2.1.any (acknowledges digest) = true →
        digest.hash ∈ blobs.map fun blob => blob.digest.hash := by
  induction blobs generalizing world with
  | nil => exact ⟨rfl, ⟨[], rfl⟩, fun _ none => by cases none⟩
  | cons blob rest step =>
    obtain ⟨absent, later⟩ := nodup_cons.mp distinct
    obtain ⟨count, ⟨streamed, events⟩, inside⟩ := step later (server.write world blob).2
    unfold updateSingleBlobs
    simp only
    generalize updateSingleBlobs server rest (server.write world blob).2 = done at *
    generalize (server.write world blob).1 = written at *
    refine ⟨?_, ⟨(blob, written) :: streamed, ?_⟩, ?_⟩
    · have others : rest.countP (acknowledged (.stream (blob, written) :: done.2.1)) =
          rest.countP (acknowledged done.2.1) := by
        refine countP_congr fun other member => ?_
        have differ : blob.digest.hash ≠ other.digest.hash := fun same =>
          absent (mem_map.mpr ⟨other, member, same.symm⟩)
        rw [acknowledged, acknowledged, any_cons, acknowledges, beq_eq_false_iff_ne.mpr differ,
          Bool.and_false, Bool.false_or]
      have own : acknowledged (.stream (blob, written) :: done.2.1) blob = written := by
        have none : done.2.1.any (acknowledges blob.digest) = false :=
          Bool.eq_false_iff.mpr fun found => absent (inside blob.digest found)
        rw [acknowledged, any_cons, none, acknowledges, beq_self_eq_true, Bool.and_true,
          Bool.or_false]
      rw [countP_cons, others, own, ← count]
      cases written <;> rfl
    · rw [events]
      rfl
    · intro digest found
      rw [any_cons, or_eq_true] at found
      rw [map_cons, mem_cons]
      cases found with
      | inl here =>
        rw [acknowledges, and_eq_true, beq_iff_eq] at here
        exact .inl here.2.symm
      | inr there => exact .inr (inside digest there)

theorem countP_or {Item : Type} (items : List Item) (first second : Item → Bool) :
    items.countP (fun item => first item || second item) =
      items.countP first + (items.filter fun item => !first item).countP second := by
  induction items with
  | nil => rfl
  | cons item rest step =>
    rw [countP_cons, countP_cons, step, filter_cons]
    cases first item with
    | true => simp only [Bool.true_or, Bool.not_true, false_eq_true, ↓reduceIte]; omega
    | false =>
      simp only [Bool.false_or, Bool.not_false, false_eq_true, ↓reduceIte, countP_cons]
      omega

theorem updateLoop_counted (replies : Replies server) (blobs : List CasBlob) (maxContentSize : Nat)
    (world : World) :
    let done := batchLoop (updateTransfer server instanceName) server.capabilities attempts
      { maxContentSize := maxContentSize
        remaining := blobs
        result := []
        events := [.limit maxContentSize]
        world := world }
    Counted blobs done.result done.events ∧
      ∀ limit, WithinLimits UpdateItem.byteSizeLong (fun item => item.digest.contentSize) limit
        done.events := by
  have measured : ∀ blob part, (updateTransfer server instanceName).requestCreator blob = some part →
      (part.items.map fun item => item.digest.contentSize).sum =
        (updateTransfer server instanceName).contentSize blob := by
    intro blob part created
    obtain ⟨content, _, rfl⟩ := map_eq_some_iff.mp created
    exact Nat.add_zero _
  have fresh : Counted blobs [] [.limit maxContentSize] :=
    { once := nodup_nil
      requested := fun _ member => by cases member
      exact := fun digest => by simp [acknowledges] }
  exact ⟨(keeps_counted replies blobs).batchLoop fresh rfl (List.Subset.refl _),
    (keeps_withinLimits measured blobs).batchLoop (fun _ => trivial) rfl (List.Subset.refl _)⟩

theorem Counted.acknowledged (counted : Counted blobs updated events)
    (blob : CasBlob) : acknowledged events blob = containsDigest updated blob.digest :=
  Bool.eq_iff_iff.mpr ((counted.exact blob.digest).trans containsDigest_iff.symm)

theorem Counted.inside (counted : Counted blobs updated events)
    {digest : BazelDigest} (found : events.any (acknowledges digest) = true) :
    digest.hash ∈ blobs.map fun blob => blob.digest.hash :=
  mem_map.mpr (counted.requested _ ((counted.exact digest).mp found))

theorem batchUpdateBlobs_counts (replies : Replies server)
    {arrange : List CasBlob → List CasBlob} (arranged : ∀ blobs, (arrange blobs).Perm blobs)
    {blobs : List CasBlob} (distinct : (blobs.map fun blob => blob.digest.hash).Nodup)
    (world : World) : ∃ count events last, (∀ calls, blobs.length < calls →
        batchUpdateBlobs server instanceName attempts arrange calls blobs world =
          some (count, events, last)) ∧
      (∀ limit, WithinLimits UpdateItem.byteSizeLong (fun item => item.digest.contentSize) limit
        events) ∧ count = blobs.countP (acknowledged events) ∧
      ∀ digest, events.any (acknowledges digest) = true →
        digest.hash ∈ blobs.map fun blob => blob.digest.hash := by
  induction size : blobs.length using Nat.strong_induction_on generalizing blobs world with
  | h length smaller =>
    subst size
    cases empty : blobs.isEmpty with
    | true =>
      refine ⟨0, [], world, fun calls enough => ?_, fun _ => trivial, ?_, fun _ none => by cases none⟩
      · obtain ⟨calls, rfl⟩ := Nat.exists_eq_add_one_of_ne_zero (Nat.ne_of_gt (Nat.zero_lt_of_lt enough))
        rw [batchUpdateBlobs, if_pos empty]
      · rw [List.isEmpty_iff.mp empty]
        rfl
    | false =>
      obtain ⟨counted, within⟩ := @updateLoop_counted _ server instanceName attempts replies blobs
        (server.capabilities.getMaxBatchTransferSize world).1
        (server.capabilities.getMaxBatchTransferSize world).2
      have unfolds : ∀ calls, batchUpdateBlobs server instanceName attempts arrange (calls + 1) blobs
          world = _ := fun calls => by
        rw [batchUpdateBlobs, if_neg (by rw [empty]; exact false_ne_true)]
      simp only at unfolds
      generalize batchLoop (updateTransfer server instanceName) server.capabilities attempts _ = done
        at counted within unfolds
      have total := countP_containsDigest distinct counted.once counted.requested
      have same : ∀ blob, acknowledged done.events blob = containsDigest done.result blob.digest :=
        counted.acknowledged
      have parts : ∀ events : List UpdateEvent,
          blobs.countP (acknowledged (done.events ++ events)) = done.result.length +
            (blobs.filter fun blob => !containsDigest done.result blob.digest).countP
              (acknowledged events) := by
        intro events
        rw [← total, ← countP_or]
        refine countP_congr fun blob _ => ?_
        rw [← same, acknowledged, acknowledged, acknowledged, any_append]
      have once : ∀ calls, blobs.length < calls → ∃ fewer, calls = fewer + 1 ∧
          blobs.length ≤ fewer := by
        intro calls enough
        cases calls with
        | zero => cases enough
        | succ fewer => exact ⟨fewer, rfl, Nat.le_of_lt_succ enough⟩
      cases complete : blobs.length == done.result.length with
      | true =>
        refine ⟨done.result.length, done.events, done.world, fun calls enough => ?_, within, ?_,
          fun _ => counted.inside⟩
        · obtain ⟨fewer, rfl, _⟩ := once calls enough
          rw [unfolds]
          simp only [complete, Bool.not_true, Bool.and_false, false_eq_true, ↓reduceIte]
        · rw [← total]
          exact (countP_congr fun blob _ => by rw [same]).symm
      | false =>
        cases nothing : done.result.isEmpty with
        | false =>
          let missing := arrange (blobs.filter fun blob => !containsDigest done.result blob.digest)
          have permuted : missing.Perm
              (blobs.filter fun blob => !containsDigest done.result blob.digest) := arranged _
          have fewer : missing.length < blobs.length := by
            have split : blobs.length =
                blobs.countP (fun blob => containsDigest done.result blob.digest) +
                  blobs.countP fun blob => !containsDigest done.result blob.digest := by
              simpa using @List.length_eq_countP_add_countP _
                (fun blob => containsDigest done.result blob.digest) blobs
            have some : done.result.length ≠ 0 := fun none => by
              rw [List.length_eq_zero_iff.mp none] at nothing
              cases nothing
            rw [permuted.length_eq, ← List.countP_eq_length_filter]
            omega
          obtain ⟨count, events, last, runs, limits, exact, inside⟩ := smaller missing.length fewer
            (((permuted.map _).nodup_iff).mpr (distinct.sublist (List.filter_sublist.map _)))
            done.world rfl
          refine ⟨done.result.length + count, done.events ++ events, last, fun calls enough => ?_,
            fun limit => withinLimits_append.mpr ⟨within limit, limits _⟩, ?_, fun digest found => ?_⟩
          · obtain ⟨others, rfl, bound⟩ := once calls enough
            rw [unfolds]
            simp only [complete, nothing, Bool.not_false, Bool.and_true, ↓reduceIte]
            have nested := runs others (Nat.lt_of_lt_of_le fewer bound)
            rw [show arrange _ = missing from rfl, nested]
            rfl
          · rw [parts, exact, permuted.countP_eq]
          · rw [any_append, or_eq_true] at found
            cases found with
            | inl here => exact counted.inside here
            | inr later =>
              obtain ⟨blob, member, hash⟩ := mem_map.mp (inside digest later)
              exact mem_map.mpr
                ⟨blob, List.mem_of_mem_filter (permuted.subset member), hash⟩
        | true =>
          obtain ⟨count, ⟨streamed, streams⟩, inside⟩ :=
            @updateSingleBlobs_count _ server blobs distinct done.world
          refine ⟨(updateSingleBlobs server blobs done.world).1,
            done.events ++ (updateSingleBlobs server blobs done.world).2.1,
            (updateSingleBlobs server blobs done.world).2.2, fun calls enough => ?_,
            fun limit => withinLimits_append.mpr ⟨within limit, streams ▸ withinLimits_stream _ _⟩,
            ?_, fun digest found => ?_⟩
          · obtain ⟨others, rfl, _⟩ := once calls enough
            rw [unfolds]
            simp only [complete, nothing, Bool.not_true, false_eq_true, ↓reduceIte,
              Bool.not_false, Bool.and_true]
          · have all : (blobs.filter fun blob => !containsDigest done.result blob.digest) = blobs := by
              rw [List.isEmpty_iff.mp nothing]
              exact List.filter_eq_self.mpr fun _ _ => rfl
            rw [parts, all, List.isEmpty_iff.mp nothing, count]
            exact (Nat.zero_add _).symm
          · rw [any_append, or_eq_true] at found
            cases found with
            | inl here => exact counted.inside here
            | inr later => exact inside digest later

end Update

/-! ## Delivered blobs -/

section Read

variable {World : Type} {server : CasServer World} {instanceName : Str} {attempts : Nat}
  {fromTempFile : BazelDigest → Str → Option CasBlob} {digests : List BazelDigest}

/-- A blob is among those that are returned. -/
def Returned (blobs : List CasBlob) (blob : CasBlob) : Prop :=
  ∃ found ∈ blobs, found.digest.hash = blob.digest.hash

/-- A blob is delivered for a requested digest: by a response in a batch, or on the stream. -/
inductive Delivered (fromTempFile : BazelDigest → Str → Option CasBlob)
    (digests : List BazelDigest) (events : List ReadEvent) (blob : CasBlob) : Prop where
  | batch (request : BatchRequest BazelDigest) (responses : List (StatusCode × ReadItem))
      (response : ReadItem) (reference : BazelDigest)
      (event : .batch request (.responses responses) ∈ events)
      (member : (.ok, response) ∈ responses) (requested : reference ∈ digests)
      (same : reference.hash = response.digest.hash)
      (stored : fromTempFile reference response.data = some blob)
  | stream (digest : BazelDigest) (event : .stream (digest, some blob) ∈ events)

variable {blobs output : List CasBlob}

theorem returned_emplaceBlob {other : CasBlob} : Returned (emplaceBlob blobs other) blob ↔
      Returned blobs blob ∨ other.digest.hash = blob.digest.hash := by
  unfold emplaceBlob Returned
  split
  · next present =>
    rw [any_eq_true] at present
    obtain ⟨found, member, same⟩ := present
    exact ⟨.inl, fun either => either.elim id fun here =>
      ⟨found, member, (beq_iff_eq.mp same).trans here⟩⟩
  · simp only [mem_append, mem_singleton, or_and_right, exists_or, exists_eq_left]

theorem returned_foldl {others : List CasBlob} :
    Returned (others.foldl emplaceBlob blobs) blob ↔ Returned blobs blob ∨ Returned others blob := by
  induction others generalizing blobs with
  | nil =>
    have none : ¬Returned [] blob := fun ⟨_, member, _⟩ => by cases member
    exact (or_iff_left none).symm
  | cons other rest step =>
    have split : Returned (other :: rest) blob ↔
        other.digest.hash = blob.digest.hash ∨ Returned rest blob := List.exists_mem_cons_iff ..
    rw [foldl_cons, step, returned_emplaceBlob, split, or_assoc]

variable {reference : BazelDigest}

theorem find_reference (distinct : (digests.map BazelDigest.hash).Nodup) {hash : Str}
    (requested : reference ∈ digests) (same : reference.hash = hash) :
    digests.find? (fun digest => digest.hash == hash) = some reference := by
  cases found : digests.find? (fun digest => digest.hash == hash) with
  | none =>
    have none := List.find?_eq_none.mp found reference requested
    exact absurd (beq_iff_eq.mpr same) none
  | some other =>
    have holds : (other.hash == hash) = true :=
      @List.find?_some _ (fun digest : BazelDigest => digest.hash == hash) _ _ found
    have equal : other.hash = hash := beq_iff_eq.mp holds
    rw [List.inj_on_of_nodup_map distinct (List.mem_of_find?_eq_some found) requested
      (equal.trans same.symm)]

variable {items : List ReadItem}

theorem subset_inserted :
    output ⊆ items.foldl (readTransfer server instanceName fromTempFile digests).inserter output := by
  induction items generalizing output with
  | nil => exact List.Subset.refl _
  | cons item rest step =>
    refine List.Subset.trans ?_ step
    simp only [readTransfer]
    split
    · exact List.Subset.refl _
    · split
      · exact List.Subset.refl _
      · exact List.subset_append_left _ _

theorem mem_inserted (distinct : (digests.map BazelDigest.hash).Nodup) {response : ReadItem}
    (member : response ∈ items) (requested : reference ∈ digests)
    (same : reference.hash = response.digest.hash)
    (stored : fromTempFile reference response.data = some blob) :
    blob ∈ items.foldl (readTransfer server instanceName fromTempFile digests).inserter output := by
  induction items generalizing output with
  | nil => cases member
  | cons item rest step =>
    rw [foldl_cons]
    cases mem_cons.mp member with
    | inr later => exact step later
    | inl here =>
      refine subset_inserted (here ▸ ?_)
      have found : digests.find? (fun digest => digest.hash == response.digest.hash) =
          some reference := find_reference distinct requested same
      simp only [readTransfer, found, stored, mem_append, mem_singleton, or_true]

theorem Delivered.of_append {front back : List ReadEvent}
    (delivered : Delivered fromTempFile digests (front ++ back) blob) :
    Delivered fromTempFile digests front blob ∨ Delivered fromTempFile digests back blob := by
  cases delivered with
  | batch request responses response reference event member requested same stored =>
    exact (mem_append.mp event).imp
      (.batch request responses response reference · member requested same stored)
      (.batch request responses response reference · member requested same stored)
  | stream digest event => exact (mem_append.mp event).imp (.stream digest) (.stream digest)

theorem replyContents_read (replies : Replies server) {world : World}
    {request other : BatchRequest BazelDigest} {responses : List (StatusCode × ReadItem)}
    (event : (.batch other (.responses responses) : ReadEvent) ∈
      [Event.batch request (server.batchRead world request).1]) :
    replyContents (readTransfer server instanceName fromTempFile digests)
        (server.batchRead world request).1 = some ((responses.map snd).foldl
        (readTransfer server instanceName fromTempFile digests).inserter []) := by
  have equal := mem_singleton.mp event
  injection equal with _ reply
  have processed := processBatchResponse_ok
    (readTransfer server instanceName fromTempFile digests).inserter
    (replies.read world request responses reply.symm) []
  rw [← reply]
  simp only [replyContents, processed, Except.toOption]

theorem keeps_delivered (replies : Replies server) (distinct : (digests.map BazelDigest.hash).Nodup) :
    Keeps (readTransfer server instanceName fromTempFile digests) digests
      fun blobs events => ∀ blob, Delivered fromTempFile digests events blob → Returned blobs blob where
  accepted := by
    intro blobs events request world contents _ accepted before blob delivered
    refine returned_foldl.mpr (delivered.of_append.imp (before blob) fun here => ?_)
    cases here with
    | stream digest event => cases mem_singleton.mp event
    | batch other responses response reference event member requested same stored =>
      have contents := some.inj (accepted.symm.trans (replyContents_read replies event))
      exact ⟨blob, contents ▸ mem_inserted distinct (mem_map.mpr ⟨_, member, rfl⟩) requested
        same stored, rfl⟩
  rejected := by
    intro blobs events request world _ rejected before blob delivered
    refine delivered.of_append.elim (before blob) fun here => ?_
    cases here with
    | stream digest event => cases mem_singleton.mp event
    | batch other responses response reference event member requested same stored =>
      cases rejected.symm.trans (replyContents_read replies event)
  limited := by
    intro blobs events size before blob delivered
    refine delivered.of_append.elim (before blob) fun here => ?_
    cases here with
    | batch _ _ _ _ event => cases mem_singleton.mp event
    | stream _ event => cases mem_singleton.mp event
  streamed := by
    intro blobs events digest world _ before blob delivered
    refine returned_foldl.mpr (delivered.of_append.imp (before blob) fun here => ?_)
    cases here with
    | batch _ _ _ _ event => cases mem_singleton.mp event
    | stream other event =>
      have equal := mem_singleton.mp event
      injection equal with pair
      have found : (server.read world digest).1 = some blob := (congrArg snd pair).symm
      exact ⟨blob, by rw [found]; exact mem_singleton_self blob, rfl⟩

theorem batchReadBlobs_complete (replies : Replies server)
    (distinct : (digests.map BazelDigest.hash).Nodup) (world : World) :
    let done := batchReadBlobs server instanceName attempts fromTempFile digests world
    (∀ limit, WithinLimits BazelDigest.byteSizeLong BazelDigest.contentSize limit done.2.1) ∧
      ∀ blob, Delivered fromTempFile digests done.2.1 blob → Returned done.1 blob := by
  intro done
  cases empty : digests.isEmpty with
  | true =>
    have nothing : done = ([], [], world) := if_pos empty
    rw [nothing]
    refine ⟨fun _ => trivial, fun blob delivered => ?_⟩
    cases delivered with
    | batch _ _ _ _ event => cases event
    | stream _ event => cases event
  | false =>
    have measured : ∀ digest part,
        (readTransfer server instanceName fromTempFile digests).requestCreator digest = some part →
        (part.items.map BazelDigest.contentSize).sum =
          (readTransfer server instanceName fromTempFile digests).contentSize digest := by
      intro digest part created
      cases created
      exact Nat.add_zero _
    have unfolds : done = _ := if_neg (by rw [empty]; exact false_ne_true)
    rw [unfolds]
    refine ⟨(keeps_withinLimits measured digests).batchLoop (fun _ => trivial) rfl
      (List.Subset.refl _), (keeps_delivered replies distinct).batchLoop (fun blob delivered => ?_)
      rfl (List.Subset.refl _)⟩
    cases delivered with
    | batch _ _ _ _ event => cases mem_singleton.mp event
    | stream _ event => cases mem_singleton.mp event

end Read

/-! ## Complete transfers -/

section Transfers

variable {World : Type} (server : CasServer World) (instanceName : Str) (attempts : Nat)

/-- Blobs are updated: the call returns with nested calls for at most as many sets as there are
blobs, with requests within the limits, and the number of the blobs that were acknowledged. -/
def UpdatesAll (arrange : List CasBlob → List CasBlob) (blobs : List CasBlob) (world : World) : Prop :=
  ∃ count events last,
    (∀ calls, blobs.length < calls →
      batchUpdateBlobs server instanceName attempts arrange calls blobs world =
        some (count, events, last)) ∧
    WithinLimits UpdateItem.byteSizeLong (fun item => item.digest.contentSize) none events ∧
    count = blobs.countP (acknowledged events)

/-- Blobs are read: requests are within the limits, and every blob that is delivered is returned. -/
def ReadsAll (fromTempFile : BazelDigest → Str → Option CasBlob) (digests : List BazelDigest)
    (world : World) : Prop :=
  ∃ blobs events last,
    batchReadBlobs server instanceName attempts fromTempFile digests world = (blobs, events, last) ∧
    WithinLimits BazelDigest.byteSizeLong BazelDigest.contentSize none events ∧
    ∀ blob, Delivered fromTempFile digests events blob → Returned blobs blob

end Transfers

/-- Both transfers end and are complete, for all blobs with different digests and every server that
replies to a batch for some of its digests or with an error. -/
theorem transfers_complete {World : Type} {server : CasServer World} (replies : Replies server)
    (instanceName : Str) (attempts : Nat) {arrange : List CasBlob → List CasBlob}
    (arranged : ∀ blobs, (arrange blobs).Perm blobs)
    (fromTempFile : BazelDigest → Str → Option CasBlob) (world : World) :
    (∀ blobs : List CasBlob, (blobs.map fun blob => blob.digest.hash).Nodup →
      UpdatesAll server instanceName attempts arrange blobs world) ∧
    ∀ digests : List BazelDigest, (digests.map BazelDigest.hash).Nodup →
      ReadsAll server instanceName attempts fromTempFile digests world := by
  constructor
  · intro blobs distinct
    obtain ⟨count, events, last, runs, within, exact, _⟩ :=
      @batchUpdateBlobs_counts _ server instanceName attempts replies arrange arranged blobs distinct
        world
    exact ⟨count, events, last, runs, within none, exact⟩
  · intro digests distinct
    have complete := @batchReadBlobs_complete _ server instanceName attempts fromTempFile digests
      replies distinct world
    exact ⟨_, _, _, rfl, complete.1 none, complete.2⟩

/-- A server with a limit that acknowledges the first blob of a request and knows no blobs. -/
def firstOnly : CasServer Nat where
  capabilities :=
    { refresh := id
      transferSize := id
      setTransferSize := fun _ size => size }
  batchUpdate size request :=
    (.responses ((request.items.take 1).map fun item => (.ok, item.digest)), size)
  batchRead size _ := (.responses [], size)
  write size _ := (false, size)
  read size _ := (none, size)

theorem firstOnly_replies : Replies firstOnly where
  update size request responses reply response member := by
    cases reply
    obtain ⟨item, inside, rfl⟩ := mem_map.mp member
    exact ⟨rfl, item, List.mem_of_mem_take inside, rfl⟩
  read size request responses reply response member := by
    cases reply
    cases member

theorem firstOnly_complete :
    (∀ blobs : List CasBlob, (blobs.map fun blob => blob.digest.hash).Nodup →
      UpdatesAll firstOnly (lit "main") 3 id blobs 1000000) ∧
    ∀ digests : List BazelDigest, (digests.map BazelDigest.hash).Nodup →
      ReadsAll firstOnly (lit "main") 3 (fun digest data => some ⟨digest, some data⟩) digests 1000000 :=
  transfers_complete firstOnly_replies (lit "main") 3 (fun blobs => .refl blobs) _ 1000000

end Jst.Verif.BatchTransfers
