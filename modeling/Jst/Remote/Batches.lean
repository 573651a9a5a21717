import Jst.Remote.Digest
/-!
# Batches of a transfer

`bazel_cas_client.cpp` transfers blobs in batches: it fills a request up to the limits, sends it,
and on a request that is too large lowers the limit of the content and fills a smaller one. The two
transfers share the loop, which is `batchLoop` here; where their bodies differ is a `Transfer`. The
server, and other threads that change the capabilities in between, are the functions on a `World`.
What happens is written down as events.
-/
namespace Jst.Remote

/-- `grpc::StatusCode`, as far as codes are told apart. -/
inductive StatusCode where
  | ok
  | invalidArgument
  | resourceExhausted
  | unavailable
  | other (code : Nat)
deriving DecidableEq

def isBatchTooLarge (code : StatusCode) : Bool :=
  code = .invalidArgument || code = .resourceExhausted

namespace MessageLimits

/-- `MessageLimits::kMaxGrpcLength`. -/
def maxGrpcLength : Nat := 3 * 1024 * 1024

/-- `MessageLimits::kMinBatchTransferSize`. -/
def minBatchTransferSize : Nat := 64 * 1024

end MessageLimits

/-! ## Sizes of messages -/

/-- The length of a variable-length integer: seven bits a byte. -/
def varintLength (number : Nat) : Nat := Nat.log2 number / 7 + 1

/-- The length of a field of the given length: a tag, the length and the bytes. -/
def fieldLength (length : Nat) : Nat := 1 + varintLength length + length

/-- The length of a field for a string; an empty one is not written. -/
def stringFieldLength (text : Str) : Nat := if text.isEmpty then 0 else fieldLength text.length

/-- `GetContentSize` — the size that a digest names. -/
def BazelDigest.contentSize (digest : BazelDigest) : Nat := digest.sizeBytes.toUInt64.toNat

/-- `ByteSizeLong` of a digest; a size of zero is not written. -/
def BazelDigest.byteSizeLong (digest : BazelDigest) : Nat :=
  stringFieldLength digest.hash +
    if digest.contentSize = 0 then 0 else 1 + varintLength digest.contentSize

/-- `BatchUpdateBlobsRequest` and `BatchReadBlobsRequest`. -/
structure BatchRequest (Item : Type) where
  instanceName : Str
  items : List Item

namespace BatchRequest

variable {Item : Type}

/-- A request that was not filled yet. -/
def new : BatchRequest Item where
  instanceName := []
  items := []

/-- `ByteSizeLong`, by the sizes of the items. -/
def byteSizeLong (itemSize : Item → Nat) (request : BatchRequest Item) : Nat :=
  stringFieldLength request.instanceName +
    (request.items.map fun item => fieldLength (itemSize item)).sum

/-- `MergeFrom` — an empty string is not merged. -/
def mergeFrom (request other : BatchRequest Item) : BatchRequest Item where
  instanceName := if other.instanceName.isEmpty then request.instanceName else other.instanceName
  items := request.items ++ other.items

theorem byteSizeLong_mergeFrom_le (itemSize : Item → Nat) (request other : BatchRequest Item) :
    (request.mergeFrom other).byteSizeLong itemSize ≤
      request.byteSizeLong itemSize + other.byteSizeLong itemSize := by
  have name : stringFieldLength (request.mergeFrom other).instanceName ≤
      stringFieldLength request.instanceName + stringFieldLength other.instanceName := by
    show stringFieldLength (if other.instanceName.isEmpty then _ else _) ≤ _
    split
    · exact Nat.le_add_right _ _
    · exact Nat.le_add_left _ _
  simp only [byteSizeLong]
  rw [mergeFrom, map_append, List.sum_append]
  rw [mergeFrom] at name
  omega

end BatchRequest

/-- A reply to a batch request: a status, or a response with a status for each blob. -/
inductive Reply (Response : Type) where
  | failed (code : StatusCode)
  | responses (responses : List (StatusCode × Response))

/-! ## Retrying -/

/-- `RetryResponse`, without its message. -/
structure RetryResponse where
  ok : Bool
  exitRetryLoop : Bool := false

/-- `WithRetry` — a function that is called at most the given number of times. -/
def withRetry {State : Type} (call : State → RetryResponse × State) : Nat → State → Bool × State
  | 0, state => (false, state)
  | attempts + 1, state =>
    let (response, state) := call state
    if response.ok then (true, state)
    else if response.exitRetryLoop then (false, state)
    else withRetry call attempts state

/-- `ProcessBatchResponse` — the contents of the responses, or whether the retry loop is left at the
first response with an error. -/
def processBatchResponse {Response Content : Type}
    (inserter : List Content → Response → List Content) :
    List (StatusCode × Response) → List Content → Except Bool (List Content)
  | [], output => .ok output
  | (code, response) :: rest, output =>
    if code = .ok then processBatchResponse inserter rest (inserter output response)
    else .error (code ≠ .unavailable)

/-! ## Capabilities -/

/-- The capabilities client among the server and the other threads. -/
structure CapabilitiesClient (World : Type) where
  /-- What happens until the capabilities are read: the server is asked if they are not known, and
  other threads change them. -/
  refresh : World → World
  /-- `MaxBatchTransferSize` of the capabilities. -/
  transferSize : World → Nat
  /-- The capabilities are replaced by ones with another `MaxBatchTransferSize`. -/
  setTransferSize : World → Nat → World

namespace CapabilitiesClient

variable {World : Type} (capabilities : CapabilitiesClient World)

def getMaxBatchTransferSize (world : World) : Nat × World :=
  let world := capabilities.refresh world
  (capabilities.transferSize world, world)

def limitMaxBatchTransferSize (newLimit : Nat) (world : World) : Option Nat × World :=
  let world := capabilities.refresh world
  let limit := max newLimit MessageLimits.minBatchTransferSize
  if limit ≥ capabilities.transferSize world then (none, world)
  else (some limit, capabilities.setTransferSize world limit)

def reduceMaxBatchTransferSize (contentSize maxContentSize : Nat) (world : World) :
    Option Nat × World :=
  if contentSize ≤ MessageLimits.minBatchTransferSize then (none, world)
  else
    match capabilities.limitMaxBatchTransferSize (min maxContentSize contentSize / 2) world with
    | (some reduced, world) => (some reduced, world)
    | (none, world) =>
      -- another thread may have reduced the limit in the meantime
      let (current, world) := capabilities.getMaxBatchTransferSize world
      (if current < maxContentSize then some current else none, world)

theorem reduceMaxBatchTransferSize_lt {contentSize maxContentSize reduced : Nat} {world : World}
    (within : contentSize ≤ maxContentSize)
    (lowered : (capabilities.reduceMaxBatchTransferSize contentSize maxContentSize world).1 =
      some reduced) : reduced < maxContentSize := by
  unfold reduceMaxBatchTransferSize at lowered
  split at lowered
  · cases lowered
  · next large =>
    have positive : 0 < MessageLimits.minBatchTransferSize := by decide
    have half : min maxContentSize contentSize / 2 < maxContentSize := by omega
    split at lowered
    · next value _ limited =>
      cases lowered
      unfold limitMaxBatchTransferSize at limited
      simp only at limited
      split at limited
      · cases limited
      · cases limited
        omega
    · simp only at lowered
      split at lowered
      · next below =>
        cases lowered
        exact below
      · cases lowered

end CapabilitiesClient

/-! ## The loop -/

/-- What happens during a transfer. -/
inductive Event (Item Response Streamed : Type) where
  | limit (size : Nat)
  | batch (request : BatchRequest Item) (reply : Reply Response)
  | stream (streamed : Streamed)

/-- A transfer of elements in batches: where the two transfers differ. -/
structure Transfer (World Elem Item Response Content Streamed Result : Type) where
  requestCreator : Elem → Option (BatchRequest Item)
  itemSize : Item → Nat
  /-- `GetContentSize` of an element. -/
  contentSize : Elem → Nat
  send : World → BatchRequest Item → Reply Response × World
  /-- The inserter of `ProcessBatchResponse`. -/
  inserter : List Content → Response → List Content
  accept : Result → List Content → Result
  /-- What is done with an element that is not transferred in a batch. -/
  fallback : Elem → Result → World → Result × List Streamed × World

section Loop

variable {World Elem Item Response Content Streamed Result : Type}

/-- The state of the function that is retried. -/
structure Attempt (World Item Response Streamed Result : Type) where
  result : Result
  /-- `failure_code` — the code of the last request that failed. -/
  failureCode : Option StatusCode
  events : List (Event Item Response Streamed)
  world : World

/-- The state of the loop. -/
structure LoopState (World Elem Item Response Streamed Result : Type) where
  maxContentSize : Nat
  /-- The elements from `it_processed` on. -/
  remaining : List Elem
  result : Result
  events : List (Event Item Response Streamed)
  world : World

variable (transfer : Transfer World Elem Item Response Content Streamed Result)

/-- `InitRequest` — fill a request from the front of a list; what was taken and what is left. -/
def initRequest (messageLimit : Nat) (contentLimit : Option Nat) :
    BatchRequest Item → Nat → List Elem → BatchRequest Item × List Elem × List Elem
  | request, _, [] => (request, [], [])
  | request, contentSize, elem :: rest =>
    match transfer.requestCreator elem with
    | none => (request, [], elem :: rest)
    | some toMerge =>
      if request.byteSizeLong transfer.itemSize + toMerge.byteSizeLong transfer.itemSize >
          messageLimit then (request, [], elem :: rest)
      else if contentLimit.any fun limit => contentSize + transfer.contentSize elem > limit then
        (request, [], elem :: rest)
      else
        let (request, taken, left) := initRequest messageLimit contentLimit
          (request.mergeFrom toMerge) (contentSize + transfer.contentSize elem) rest
        (request, elem :: taken, left)

def getTotalContentSize (elems : List Elem) : Nat := (elems.map transfer.contentSize).sum

/-- The function that is retried: send a request and insert what was transferred. -/
def attempt (request : BatchRequest Item) (state : Attempt World Item Response Streamed Result) :
    RetryResponse × Attempt World Item Response Streamed Result :=
  let (reply, world) := transfer.send state.world request
  let state := { state with events := state.events ++ [.batch request reply], world := world }
  match reply with
  | .failed code =>
    ({ ok := false, exitRetryLoop := code ≠ .unavailable }, { state with failureCode := some code })
  | .responses responses =>
    match processBatchResponse transfer.inserter responses [] with
    | .ok contents =>
      ({ ok := true }, { state with result := transfer.accept state.result contents })
    | .error exitRetryLoop => ({ ok := false, exitRetryLoop := exitRetryLoop }, state)

/-- The elements that are not transferred in a batch, one by one. -/
def fallbackAll : List Elem → Result → World → Result × List Streamed × World
  | [], result, world => (result, [], world)
  | elem :: rest, result, world =>
    let (result, streamed, world) := transfer.fallback elem result world
    let (result, others, world) := fallbackAll rest result world
    (result, streamed ++ others, world)

/-- A lower limit, if the last failure was that the batch was too large. -/
def reduceAfter (capabilities : CapabilitiesClient World) (failureCode : Option StatusCode)
    (contentSize maxContentSize : Nat) (world : World) : Option Nat × World :=
  if failureCode.any isBatchTooLarge then
    capabilities.reduceMaxBatchTransferSize contentSize maxContentSize world
  else (none, world)

/-- The body of the loop. -/
def iterate (capabilities : CapabilitiesClient World) (attempts : Nat)
    (state : LoopState World Elem Item Response Streamed Result) :
    LoopState World Elem Item Response Streamed Result :=
  match state.remaining with
  | [] => state
  | first :: rest =>
    let (request, taken, left) := initRequest transfer MessageLimits.maxGrpcLength
      (some state.maxContentSize) .new 0 (first :: rest)
    if taken.isEmpty then
      -- no progress: the first element fits no request
      let (result, streamed, world) := transfer.fallback first state.result state.world
      { state with
        remaining := rest
        result := result
        events := state.events ++ streamed.map .stream
        world := world }
    else
      let (ok, tried) := withRetry (attempt transfer request) attempts
        { result := state.result, failureCode := none, events := state.events, world := state.world }
      if ok then
        { state with
          remaining := left
          result := tried.result
          events := tried.events
          world := tried.world }
      else
        match reduceAfter capabilities tried.failureCode (getTotalContentSize transfer taken)
          state.maxContentSize tried.world with
        | (some newLimit, world) =>
          { maxContentSize := newLimit
            remaining := state.remaining
            result := tried.result
            events := tried.events ++ [.limit newLimit]
            world := world }
        | (none, world) =>
          let (result, streamed, world) := fallbackAll transfer taken tried.result world
          { state with
            remaining := left
            result := result
            events := tried.events ++ streamed.map .stream
            world := world }

/-! ## Termination -/

theorem initRequest_append (messageLimit : Nat) (contentLimit : Option Nat)
    (request : BatchRequest Item) (size : Nat) (elems : List Elem) :
    (initRequest transfer messageLimit contentLimit request size elems).2.1 ++
      (initRequest transfer messageLimit contentLimit request size elems).2.2 = elems := by
  induction elems generalizing request size with
  | nil => rfl
  | cons elem rest step =>
    unfold initRequest
    split
    · rfl
    · split
      · rfl
      · split
        · rfl
        · exact congrArg (elem :: ·) (step _ _)

theorem initRequest_contentSize (messageLimit : Nat) {limit : Nat} (request : BatchRequest Item)
    (elems : List Elem) {size : Nat} (within : size ≤ limit) : size + getTotalContentSize transfer
      (initRequest transfer messageLimit (some limit) request size elems).2.1 ≤ limit := by
  induction elems generalizing request size with
  | nil => exact within
  | cons elem rest step =>
    unfold initRequest
    split
    · exact within
    · split
      · exact within
      · split
        · exact within
        · next toMerge _ _ fits =>
          have here : size + transfer.contentSize elem ≤ limit := by
            rw [Option.any_some, decide_eq_true_eq] at fits
            omega
          have later := step (request.mergeFrom toMerge) here
          rw [Nat.add_assoc] at later
          exact later

theorem iterate_lt (capabilities : CapabilitiesClient World) (attempts : Nat)
    {state : LoopState World Elem Item Response Streamed Result} (more : state.remaining ≠ []) :
    (iterate transfer capabilities attempts state).remaining.length +
        (iterate transfer capabilities attempts state).maxContentSize <
      state.remaining.length + state.maxContentSize := by
  unfold iterate
  split
  · next none => exact absurd none more
  · next first rest some =>
    have parts := initRequest_append transfer MessageLimits.maxGrpcLength
      (Option.some state.maxContentSize) .new 0 (first :: rest)
    have within := initRequest_contentSize transfer MessageLimits.maxGrpcLength .new
      (first :: rest) (Nat.zero_le state.maxContentSize)
    generalize initRequest transfer MessageLimits.maxGrpcLength (Option.some state.maxContentSize)
      .new 0 (first :: rest) = filled at parts within ⊢
    obtain ⟨request, taken, left⟩ := filled
    simp only at parts within ⊢
    split
    · rw [some, length_cons]
      exact Nat.add_lt_add_right (Nat.lt_succ_self _) _
    · next progress =>
      have fewer : left.length < state.remaining.length := by
        rw [some, ← parts, length_append]
        cases taken with
        | nil => exact absurd rfl progress
        | cons => simp
      split
      · exact Nat.add_lt_add_right fewer _
      · split
        · next reduced _ lowered =>
          have lower : reduced < state.maxContentSize := by
            unfold reduceAfter at lowered
            split at lowered
            · refine capabilities.reduceMaxBatchTransferSize_lt ?_ (congrArg fst lowered)
              rw [Nat.zero_add] at within
              exact within
            · cases lowered
          exact Nat.add_lt_add_left lower _
        · exact Nat.add_lt_add_right fewer _

/-- The loop over the elements, which ends because every iteration makes progress. -/
def batchLoop (capabilities : CapabilitiesClient World) (attempts : Nat)
    (state : LoopState World Elem Item Response Streamed Result) :
    LoopState World Elem Item Response Streamed Result :=
  if _more : state.remaining ≠ [] then
    batchLoop capabilities attempts (iterate transfer capabilities attempts state)
  else state
termination_by state.remaining.length + state.maxContentSize
decreasing_by exact iterate_lt transfer capabilities attempts _more

theorem batchLoop_induct {capabilities : CapabilitiesClient World} {attempts : Nat}
    {holds : LoopState World Elem Item Response Streamed Result → Prop}
    (keeps : ∀ state, state.remaining ≠ [] → holds state →
      holds (iterate transfer capabilities attempts state))
    (state : LoopState World Elem Item Response Streamed Result) (start : holds state) :
    holds (batchLoop transfer capabilities attempts state) := by
  induction state using batchLoop.induct transfer capabilities attempts with
  | case1 state more step =>
    rw [batchLoop, dif_pos more]
    exact step (keeps state more start)
  | case2 state none =>
    rw [batchLoop, dif_neg none]
    exact start

/-! ## What a transfer keeps -/

/-- The current limit after an event. -/
def nextLimit (limit : Option Nat) (event : Event Item Response Streamed) : Option Nat :=
  match event with
  | .limit size => some size
  | .batch _ _ | .stream _ => limit

/-- The limit that was set last. -/
def currentLimit (events : List (Event Item Response Streamed)) : Option Nat :=
  events.foldl nextLimit none

@[simp] theorem currentLimit_limit (events : List (Event Item Response Streamed)) (size : Nat) :
    currentLimit (events ++ [.limit size]) = some size := by
  rw [currentLimit, foldl_append]
  rfl

@[simp] theorem currentLimit_batch (events : List (Event Item Response Streamed))
    (request : BatchRequest Item) (reply : Reply Response) :
    currentLimit (events ++ [.batch request reply]) = currentLimit events := by
  rw [currentLimit, foldl_append]
  rfl

@[simp] theorem currentLimit_stream (events : List (Event Item Response Streamed))
    (streamed : List Streamed) :
    currentLimit (events ++ streamed.map .stream) = currentLimit events := by
  induction streamed generalizing events with
  | nil => rw [map_nil, append_nil]
  | cons first rest step =>
    rw [map_cons, List.append_cons, step, currentLimit, foldl_append]
    rfl

/-- A request is filled with elements. -/
def Filled (elems : List Elem) (request : BatchRequest Item) : Prop :=
  ∃ parts, List.Forall₂ (fun elem part => transfer.requestCreator elem = some part) elems parts ∧
    request.items = parts.flatMap BatchRequest.items

/-- A request that is sent during a transfer of the given elements. -/
structure Prepared (elems : List Elem) (events : List (Event Item Response Streamed))
    (request : BatchRequest Item) : Prop where
  size : request.byteSizeLong transfer.itemSize ≤ MessageLimits.maxGrpcLength
  /-- It is filled with some of the elements, within the current limit of the content. -/
  content : ∃ limit taken, currentLimit events = some limit ∧ taken ⊆ elems ∧
    Filled transfer taken request ∧ getTotalContentSize transfer taken ≤ limit

/-- The contents of a reply without errors. -/
def replyContents (reply : Reply Response) : Option (List Content) :=
  match reply with
  | .failed _ => none
  | .responses responses => (processBatchResponse transfer.inserter responses []).toOption

/-- A relation between result and events that every action of a transfer keeps. -/
structure Keeps (elems : List Elem)
    (holds : Result → List (Event Item Response Streamed) → Prop) : Prop where
  accepted : ∀ {result events request world contents}, Prepared transfer elems events request →
    replyContents transfer (transfer.send world request).1 = some contents → holds result events →
    holds (transfer.accept result contents)
      (events ++ [.batch request (transfer.send world request).1])
  rejected : ∀ {result events request world}, Prepared transfer elems events request →
    replyContents transfer (transfer.send world request).1 = none → holds result events →
    holds result (events ++ [.batch request (transfer.send world request).1])
  limited : ∀ {result events} size, holds result events → holds result (events ++ [.limit size])
  streamed : ∀ {result events elem} world, elem ∈ elems → holds result events →
    holds (transfer.fallback elem result world).1
      (events ++ (transfer.fallback elem result world).2.1.map .stream)

theorem initRequest_filled {messageLimit : Nat} {contentLimit : Option Nat}
    {request : BatchRequest Item} {size : Nat} {elems : List Elem}
    (small : request.byteSizeLong transfer.itemSize ≤ messageLimit) :
    let filled := initRequest transfer messageLimit contentLimit request size elems
    filled.1.byteSizeLong transfer.itemSize ≤ messageLimit ∧
      ∃ parts, List.Forall₂ (fun elem part => transfer.requestCreator elem = some part)
          filled.2.1 parts ∧
        filled.1.items = request.items ++ parts.flatMap BatchRequest.items := by
  induction elems generalizing request size with
  | nil => exact ⟨small, [], .nil, (append_nil _).symm⟩
  | cons elem rest step =>
    unfold initRequest
    split
    · exact ⟨small, [], .nil, (append_nil _).symm⟩
    · next toMerge created =>
      split
      · exact ⟨small, [], .nil, (append_nil _).symm⟩
      · next fits =>
        split
        · exact ⟨small, [], .nil, (append_nil _).symm⟩
        · have merged := request.byteSizeLong_mergeFrom_le transfer.itemSize toMerge
          obtain ⟨within, parts, all, items⟩ := @step (request.mergeFrom toMerge)
            (size + transfer.contentSize elem) (by omega)
          refine ⟨within, toMerge :: parts, .cons created all, items.trans ?_⟩
          rw [BatchRequest.mergeFrom, flatMap_cons, append_assoc]

variable {transfer}

theorem withRetry_induct {State : Type} {call : State → RetryResponse × State}
    {before after : State → Prop} (step : ∀ state, before state →
      if (call state).1.ok then after (call state).2 else before (call state).2)
    (attempts : Nat) {state : State} (start : before state) :
    if (withRetry call attempts state).1 then after (withRetry call attempts state).2
    else before (withRetry call attempts state).2 := by
  induction attempts generalizing state with
  | zero => exact start
  | succ attempts again =>
    have once := step state start
    unfold withRetry
    cases ok : (call state).1.ok with
    | true =>
      rw [ok, if_pos rfl] at once
      simp only [ok, ↓reduceIte]
      exact once
    | false =>
      rw [ok, if_neg false_ne_true] at once
      simp only [ok, false_eq_true, ↓reduceIte]
      split
      · exact once
      · exact again once

section Keeping

variable {elems : List Elem} {holds : Result → List (Event Item Response Streamed) → Prop}
  (keeps : Keeps transfer elems holds)

include keeps

theorem Keeps.fallbackAll {taken : List Elem} (inside : taken ⊆ elems) {result : Result}
    {events : List (Event Item Response Streamed)} (world : World) (start : holds result events) :
    holds (fallbackAll transfer taken result world).1
      (events ++ (Remote.fallbackAll transfer taken result world).2.1.map .stream) := by
  induction taken generalizing result events world with
  | nil => exact (append_nil events).symm ▸ start
  | cons elem rest step =>
    have once := keeps.streamed world (inside mem_cons_self) start
    have others := step (fun _ member => inside (mem_cons_of_mem _ member))
      (transfer.fallback elem result world).2.2 once
    unfold Remote.fallbackAll
    rw [append_assoc, ← map_append] at others
    exact others

theorem Keeps.attempt {request : BatchRequest Item} {limit : Nat}
    (prepared : ∀ events : List (Event Item Response Streamed), currentLimit events = some limit →
      Prepared transfer elems events request) (state : Attempt World Item Response Streamed Result)
    (start : holds state.result state.events ∧ currentLimit state.events = some limit) :
    holds (Remote.attempt transfer request state).2.result
        (Remote.attempt transfer request state).2.events ∧
      currentLimit (Remote.attempt transfer request state).2.events = some limit := by
  have ready := prepared state.events start.2
  unfold Remote.attempt
  cases contents : replyContents transfer (transfer.send state.world request).1 with
  | none =>
    have kept := keeps.rejected ready contents start.1
    generalize transfer.send state.world request = sent at contents kept ⊢
    obtain ⟨reply, world⟩ := sent
    cases reply with
    | failed code => exact ⟨kept, (currentLimit_batch _ _ _).trans start.2⟩
    | responses responses =>
      simp only [replyContents] at contents ⊢
      cases processed : processBatchResponse transfer.inserter responses [] with
      | error exit => exact ⟨kept, (currentLimit_batch _ _ _).trans start.2⟩
      | ok values =>
        rw [processed] at contents
        cases contents
  | some values =>
    have kept := keeps.accepted ready contents start.1
    generalize transfer.send state.world request = sent at contents kept ⊢
    obtain ⟨reply, world⟩ := sent
    cases reply with
    | failed code => cases contents
    | responses responses =>
      simp only [replyContents] at contents ⊢
      cases processed : processBatchResponse transfer.inserter responses [] with
      | error exit =>
        rw [processed] at contents
        cases contents
      | ok found =>
        rw [processed] at contents
        cases contents
        exact ⟨kept, (currentLimit_batch _ _ _).trans start.2⟩

variable {state : LoopState World Elem Item Response Streamed Result}

theorem Keeps.iterate {capabilities : CapabilitiesClient World} {attempts : Nat}
    (start : holds state.result state.events ∧
      currentLimit state.events = some state.maxContentSize ∧ state.remaining ⊆ elems) :
    let next := Remote.iterate transfer capabilities attempts state
    holds next.result next.events ∧ currentLimit next.events = some next.maxContentSize ∧
      next.remaining ⊆ elems := by
  obtain ⟨kept, limited, inside⟩ := start
  unfold Remote.iterate
  split
  · exact ⟨kept, limited, inside⟩
  · next first rest some =>
    rw [some] at inside
    have parts := initRequest_append transfer MessageLimits.maxGrpcLength
      (Option.some state.maxContentSize) .new 0 (first :: rest)
    have within := initRequest_contentSize transfer MessageLimits.maxGrpcLength .new
      (first :: rest) (Nat.zero_le state.maxContentSize)
    have filled := @initRequest_filled _ _ _ _ _ _ _ transfer MessageLimits.maxGrpcLength
      (Option.some state.maxContentSize) .new 0 (first :: rest) (Nat.zero_le _)
    generalize initRequest transfer MessageLimits.maxGrpcLength (Option.some state.maxContentSize)
      .new 0 (first :: rest) = result at parts within filled ⊢
    obtain ⟨request, taken, left⟩ := result
    simp only at parts within filled ⊢
    have leftInside : left ⊆ elems := fun _ member =>
      inside (parts ▸ mem_append_right taken member)
    have takenInside : taken ⊆ elems := fun _ member =>
      inside (parts ▸ mem_append_left left member)
    split
    · exact ⟨keeps.streamed _ (inside mem_cons_self) kept, (currentLimit_stream _ _).trans limited,
        fun _ member => inside (mem_cons_of_mem _ member)⟩
    · have prepared : ∀ events : List (Event Item Response Streamed),
          currentLimit events = Option.some state.maxContentSize →
          Prepared transfer elems events request := fun events current =>
        { size := filled.1
          content := ⟨state.maxContentSize, taken, current, takenInside, filled.2, by omega⟩ }
      have tried := @withRetry_induct _ (Remote.attempt transfer request)
        (fun attempt => holds attempt.result attempt.events ∧
          currentLimit attempt.events = Option.some state.maxContentSize)
        (fun attempt => holds attempt.result attempt.events ∧
          currentLimit attempt.events = Option.some state.maxContentSize)
        (fun attempt before => (ite_self _).symm ▸ keeps.attempt prepared attempt before) attempts
        { result := state.result, failureCode := none, events := state.events, world := state.world }
        ⟨kept, limited⟩
      rw [ite_self] at tried
      split
      · exact ⟨tried.1, tried.2, leftInside⟩
      · split
        · exact ⟨keeps.limited _ tried.1, currentLimit_limit _ _, some.symm ▸ inside⟩
        · exact ⟨keeps.fallbackAll takenInside _ tried.1, (currentLimit_stream _ _).trans tried.2,
            leftInside⟩

theorem Keeps.batchLoop {capabilities : CapabilitiesClient World} {attempts : Nat}
    (start : holds state.result state.events)
    (limited : currentLimit state.events = some state.maxContentSize)
    (inside : state.remaining ⊆ elems) :
    holds (batchLoop transfer capabilities attempts state).result
      (Remote.batchLoop transfer capabilities attempts state).events :=
  (@batchLoop_induct _ _ _ _ _ _ _ transfer capabilities attempts
    (fun state => holds state.result state.events ∧
      currentLimit state.events = some state.maxContentSize ∧ state.remaining ⊆ elems)
    (fun _ _ before => keeps.iterate before) state ⟨start, limited, inside⟩).1

end Keeping

end Loop

end Jst.Remote
