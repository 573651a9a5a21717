import Jst.Data.Bytes
import Mathlib.Data.List.Nodup
import Mathlib.Logic.Function.Basic
/-!
# The operations of the execution service

Every call of `Execute` registers an operation under the hash of the action and completes it when it
writes its response; calls of `WaitExecution` look for it in the cache. The cache is cleaned up, with
the oldest operations first, before an operation is set.
-/
namespace Jst.Execution

/-- `google::longrunning::Operation`, with the seconds of the time stamp in its metadata. -/
structure Operation (Response : Type) where
  name : Str
  done : Bool
  seconds : Int
  response : Option Response

/-- `OperationCache::cache_` — an unordered map, as the list of its entries. -/
abbrev OperationCache (Response : Type) := List (Str × Operation Response)

namespace OperationCache

variable {Response : Type}

/-- `DropInternal`. -/
def drop (key : Str) (cache : OperationCache Response) : OperationCache Response :=
  cache.filter (·.1 ≠ key)

def query (name : Str) (cache : OperationCache Response) : Option (Operation Response) :=
  (cache.find? (·.1 = name)).map snd

/-- The loop of `GarbageCollection` over the entries in the order of their time stamps. -/
def sweep (threshold : Nat) : (deleted : Nat) → OperationCache Response → OperationCache Response →
    OperationCache Response
  | _, [], cache => cache
  | deleted, (key, op) :: rest, cache =>
    let (deleted, cache) := if op.done then (deleted + 1, drop key cache) else (deleted, cache)
    if deleted = threshold then cache else sweep threshold deleted rest cache

/-- `GarbageCollection` — entries with equal time stamps are in any order. -/
def GarbageCollection (threshold : Nat) (cache after : OperationCache Response) : Prop :=
  if 2 * threshold < cache.length then
    ∃ order, order.Perm cache ∧ order.Pairwise (fun x y => x.2.seconds ≤ y.2.seconds) ∧
      after = sweep threshold 0 order cache
  else after = cache

/-- `Set`. -/
def Sets (threshold : Nat) (op : Operation Response) (cache after : OperationCache Response) :
    Prop :=
  ∃ left, GarbageCollection threshold cache left ∧ after = (op.name, op) :: drop op.name left

end OperationCache

/-! ## Calls -/

/-- How far a call of `Execute` is. -/
inductive ExecuteStage where
  /-- No operation is registered yet. -/
  | starting
  | running
  /-- The response is written. -/
  | finished

/-- A call of `Execute` for an action. -/
structure ExecuteCall where
  name : Str
  stage : ExecuteStage

/-- The cache, and the calls that are active. -/
structure ExecutionServer (Response Id : Type) where
  cache : OperationCache Response
  calls : Id → Option ExecuteCall

variable {Response Id : Type} [DecidableEq Id]

/-- `WaitExecution`, one look at the cache — nothing if the call sleeps and looks again. -/
def waitExecution (name : Str) (cache : OperationCache Response) :
    Option (Except Str (Operation Response)) :=
  match OperationCache.query name cache with
  | none => some (.error (lit "Executing action " ++ name ++ lit " not found in internal cache."))
  | some op => if op.done then some (.ok op) else none

/-- A step of a call of `Execute`; some runs have no calls that fail with their operation registered.
-/
inductive ExecuteStep (exponent : Nat) (mayFail : Prop) :
    ExecutionServer Response Id → ExecutionServer Response Id → Prop
  | start {server} (id : Id) (name : Str) (idle : server.calls id = none) :
      ExecuteStep exponent mayFail server
        { server with calls := update server.calls id (some ⟨name, .starting⟩) }
  /-- An error before the operation is registered. -/
  | reject {server} {id : Id} {name : Str} (starting : server.calls id = some ⟨name, .starting⟩) :
      ExecuteStep exponent mayFail server
        { server with calls := update server.calls id none }
  | register {server} {id : Id} {name : Str} (starting : server.calls id = some ⟨name, .starting⟩)
      (seconds : Int) {cache} (sets : OperationCache.Sets (2 ^ exponent)
        ⟨name, false, seconds, none⟩ server.cache cache) :
      ExecuteStep exponent mayFail server
        ⟨cache, update server.calls id (some ⟨name, .running⟩)⟩
  /-- The action, its response, the action cache or `WriteResponse` fails. -/
  | fail {server} {id : Id} {name : Str} (running : server.calls id = some ⟨name, .running⟩)
      (may : mayFail) :
      ExecuteStep exponent mayFail server
        { server with calls := update server.calls id none }
  /-- `WriteResponse`. -/
  | complete {server} {id : Id} {name : Str} (running : server.calls id = some ⟨name, .running⟩)
      (seconds : Int) (response : Response) {cache} (sets : OperationCache.Sets (2 ^ exponent)
        ⟨name, true, seconds, some response⟩ server.cache cache) :
      ExecuteStep exponent mayFail server
        ⟨cache, update server.calls id (some ⟨name, .finished⟩)⟩
  /-- The call returns. -/
  | finish {server} {id : Id} {name : Str} (finished : server.calls id = some ⟨name, .finished⟩) :
      ExecuteStep exponent mayFail server
        { server with calls := update server.calls id none }

end Jst.Execution
