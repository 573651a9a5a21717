import Mathlib.Logic.Function.Basic
import Jst.Remote.Batches
/-!
# Capabilities of the remote server

`BazelCapabilitiesClient` caches the capabilities of each instance. The lock is held while the cache
is looked up or written, but not while the server is asked. `exec` is one atomic step of a thread:
one access to the cache under the lock, or the arrival of an answer.
-/
namespace Jst.Remote.CapabilitiesCache

structure Version where
  major : Int
  minor : Int
  patch : Int
deriving DecidableEq

/-- `Capabilities::kMinVersion`. -/
def Version.min : Version := ⟨0, 0, 0⟩

/-- `Capabilities::kMaxVersion`. -/
def Version.max : Version := ⟨2 ^ 31 - 1, 2 ^ 31 - 1, 2 ^ 31 - 1⟩

structure Capabilities where
  maxBatchTransferSize : Nat := MessageLimits.maxGrpcLength
  blobSplitSupport : Bool := false
  blobSpliceSupport : Bool := false
  lowApiVersion : Version := .min
  highApiVersion : Version := .max
deriving DecidableEq

/-- `bazel_re::CacheCapabilities`, as far as it is read. -/
structure CacheCapabilities where
  maxBatchTotalSizeBytes : Int
  blobSplitSupport : Bool
  blobSpliceSupport : Bool
deriving DecidableEq

/-- `bazel_re::ServerCapabilities`, as far as it is read. -/
structure ServerCapabilities where
  cacheCapabilities : Option CacheCapabilities
  deprecatedApiVersion : Option Version
  lowApiVersion : Option Version
  highApiVersion : Option Version
deriving DecidableEq

/-- The cast of a size to `std::size_t`. -/
def toSize (bytes : Int) : Nat := (bytes % 2 ^ 64).toNat

/-- `Parse`, the batch size: that of the server if it announces one below the internal limit. -/
def parseMaxBatch (response : ServerCapabilities) : Nat :=
  match response.cacheCapabilities with
  | none => MessageLimits.maxGrpcLength
  | some cache =>
    if cache.maxBatchTotalSizeBytes ≠ 0 then
      min (toSize cache.maxBatchTotalSizeBytes) MessageLimits.maxGrpcLength
    else MessageLimits.maxGrpcLength

def parse : Option ServerCapabilities → Capabilities
  | none => {}
  | some response =>
    { maxBatchTransferSize := parseMaxBatch response
      blobSplitSupport := (response.cacheCapabilities.map (·.blobSplitSupport)).getD false
      blobSpliceSupport := (response.cacheCapabilities.map (·.blobSpliceSupport)).getD false
      lowApiVersion := (response.deprecatedApiVersion.or response.lowApiVersion).getD .min
      highApiVersion := response.highApiVersion.getD .max }

/-- What asking the server leads to, after all retries. -/
inductive Answer where
  | response (response : ServerCapabilities)
  /-- It did not, and `IsReasonableToRetry` tells whether it might another time. -/
  | failure (isReasonableToRetry : Bool)
deriving DecidableEq

/-- The response of an answer, if there is one. -/
def Answer.response? : Answer → Option ServerCapabilities
  | .response capabilities => some capabilities
  | .failure _ => none

/-- `GetCapabilities` — whether the result is cached. -/
def Answer.cached : Answer → Bool
  | .response _ => true
  | .failure isReasonableToRetry => !isReasonableToRetry

/-- What a thread does when `GetCapabilities` returns. -/
inductive Caller where
  /-- It called `GetCapabilities` itself. -/
  | get
  /-- It is in `LimitMaxBatchTransferSize` for a new limit. -/
  | limit (newLimit : Nat)
deriving DecidableEq

/-- Where a thread is. -/
inductive Point where
  | idle
  /-- In `GetCapabilities`, before it looks into the cache. -/
  | lookup (instanceName : Str) (caller : Caller)
  /-- In `GetCapabilities`, waiting for the answer of the server. -/
  | query (instanceName : Str) (caller : Caller)
  /-- In `GetCapabilities`, before it caches its result. -/
  | store (instanceName : Str) (caller : Caller) (result : Capabilities)
  /-- In `LimitMaxBatchTransferSize`, before it takes the lock. -/
  | lower (instanceName : Str) (newLimit : Nat)
deriving DecidableEq

/-- A call of `LimitMaxBatchTransferSize` that replaced a limit. -/
structure Reduction where
  instanceName : Str
  replaced : Nat
  returned : Nat
deriving DecidableEq

/-- The cache and where the threads are. What the server has answered and which limits were replaced
is recorded. -/
structure ClientState where
  capabilities : Str → Option Capabilities
  threads : Nat → Point
  answers : List (Str × Answer)
  reductions : List Reduction

/-- Nothing is cached and no thread is in a call. -/
def ClientState.start : ClientState := ⟨fun _ => none, fun _ => .idle, [], []⟩

/-- Where a thread goes on when `GetCapabilities` has returned. -/
def Caller.next (instanceName : Str) : Caller → Point
  | .get => .idle
  | .limit newLimit => .lower instanceName newLimit

/-- The critical section of `LimitMaxBatchTransferSize`: the new capabilities, if the limit is
lowered. -/
def lowered (cached : Option Capabilities) (newLimit : Nat) : Option Capabilities :=
  let limit := max newLimit MessageLimits.minBatchTransferSize
  let current := cached.getD {}
  if limit ≥ current.maxBatchTransferSize then none
  else some { current with maxBatchTransferSize := limit }

/-- What makes a thread take a step: it calls a function, the server answers, or it goes on. -/
inductive Event where
  | call (instanceName : Str) (caller : Caller)
  | answer (answer : Answer)
  | go
deriving DecidableEq

/-- A thread moves to another point. -/
def ClientState.move (state : ClientState) (thread : Nat) (point : Point) : ClientState :=
  { state with threads := update state.threads thread point }

/-- One atomic step of a thread, if the event is possible where it is. -/
def exec (state : ClientState) (thread : Nat) (event : Event) : Option ClientState :=
  match state.threads thread, event with
  | .idle, .call instanceName caller => some (state.move thread (.lookup instanceName caller))
  | .lookup instanceName caller, .go =>
    match state.capabilities instanceName with
    | some _ => some (state.move thread (caller.next instanceName))
    | none => some (state.move thread (.query instanceName caller))
  | .query instanceName caller, .answer answer =>
    let state := { state with answers := (instanceName, answer) :: state.answers }
    if answer.cached then
      some (state.move thread (.store instanceName caller (parse answer.response?)))
    else some (state.move thread (caller.next instanceName))
  | .store instanceName caller result, .go =>
    let state := { state with capabilities := update state.capabilities instanceName (some result) }
    some (state.move thread (caller.next instanceName))
  | .lower instanceName newLimit, .go =>
    match lowered (state.capabilities instanceName) newLimit with
    | none => some (state.move thread .idle)
    | some result =>
      let replaced := ((state.capabilities instanceName).getD {}).maxBatchTransferSize
      let state :=
        { state with
          capabilities := update state.capabilities instanceName (some result)
          reductions := ⟨instanceName, replaced, result.maxBatchTransferSize⟩ :: state.reductions }
      some (state.move thread .idle)
  | _, _ => none

/-- Some thread takes a step. -/
def ClientStep (state next : ClientState) : Prop := ∃ thread event, exec state thread event = some next

end Jst.Remote.CapabilitiesCache
