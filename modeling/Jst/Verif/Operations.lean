import Jst.Data.Runs
import Jst.Execution.OperationCache
/-!
# Operations are completed

As long as no call of `Execute` fails once its operation is registered, every operation in the cache
that is not done belongs to a call that is still running. The clean-up removes the oldest of the
operations that are done, and leaves at most about twice the threshold of them.
-/
namespace Jst.Verif.Operations

open Execution Execution.OperationCache

variable {Response Id : Type} [DecidableEq Id] {cache order after : OperationCache Response}
  {threshold exponent : Nat} {server next : ExecutionServer Response Id}

/-! ## Cleaning up -/

/-- The entries that the clean-up removes. -/
def oldest (count : Nat) (order : OperationCache Response) : OperationCache Response :=
  (order.filter (·.2.done)).take count

theorem sweep_eq {deleted : Nat} (fewer : deleted < threshold) :
    sweep threshold deleted order cache =
      cache.filter fun entry => entry.1 ∉ (oldest (threshold - deleted) order).map fst := by
  induction order generalizing deleted cache with
  | nil => simp [sweep, oldest]
  | cons entry rest step =>
    obtain ⟨key, op⟩ := entry
    unfold sweep
    cases isDone : op.done with
    | false =>
      have skipped : ∀ count, oldest count ((key, op) :: rest) = oldest count rest := fun count => by
        simp [oldest, isDone]
      simp only [false_eq_true, if_false, if_neg (Nat.ne_of_lt fewer), skipped]
      exact step fewer
    | true =>
      have first : oldest (threshold - deleted) ((key, op) :: rest) =
          (key, op) :: oldest (threshold - (deleted + 1)) rest := by
        have kept := List.filter_cons_of_pos (p := (·.2.done)) (a := (key, op)) (l := rest) isDone
        rw [oldest, kept, ← Nat.succ_pred (Nat.sub_ne_zero_of_lt fewer),
          List.take_succ_cons, oldest, Nat.sub_succ]
      simp only [if_true, first, map_cons, mem_cons, not_or]
      by_cases last : deleted + 1 = threshold
      · rw [if_pos last, last, Nat.sub_self]
        simp [drop, oldest]
      · rw [if_neg last, step (by omega), drop, List.filter_filter]
        exact List.filter_congr fun other _ => by simp [Bool.and_comm]

theorem garbageCollection_oldest (distinct : (cache.map fst).Nodup)
    (collects : GarbageCollection (2 ^ exponent) cache after) : after.Sublist cache ∧
      ∀ entry ∈ cache, entry ∉ after → entry.2.done = true ∧
        ∀ kept ∈ after, kept.2.done = true → entry.2.seconds ≤ kept.2.seconds := by
  unfold GarbageCollection at collects
  split at collects
  · obtain ⟨order, perm, sorted, rfl⟩ := collects
    rw [sweep_eq (Nat.two_pow_pos exponent)]
    refine ⟨List.filter_sublist, fun entry member gone => ?_⟩
    have isOldest : entry ∈ oldest (2 ^ exponent - 0) order := by
      by_contra missing
      refine gone (mem_filter.mpr ⟨member, decide_eq_true fun named => ?_⟩)
      obtain ⟨other, isOldest, same⟩ := mem_map.mp named
      have isCached := perm.subset (List.mem_of_mem_filter (List.mem_of_mem_take isOldest))
      exact missing (List.inj_on_of_nodup_map distinct isCached member same ▸ isOldest)
    refine ⟨(mem_filter.mp (List.mem_of_mem_take isOldest)).2, fun kept isKept done => ?_⟩
    obtain ⟨isCached, fresh⟩ := mem_filter.mp isKept
    have isDone : kept ∈ order.filter (·.2.done) := mem_filter.mpr ⟨perm.symm.subset isCached, done⟩
    have sorted' := sorted.sublist (List.filter_sublist (p := (·.2.done)))
    rw [← List.take_append_drop (2 ^ exponent - 0) (order.filter _)] at isDone sorted'
    cases mem_append.mp isDone with
    | inl early => exact absurd (mem_map_of_mem early) (of_decide_eq_true fresh)
    | inr late => exact (List.pairwise_append.mp sorted').2.2 entry isOldest kept late
  · subst collects
    exact ⟨.refl _, fun entry member gone => absurd member gone⟩

theorem garbageCollection_room (distinct : (cache.map fst).Nodup)
    (bounded : cache.countP (·.2.done) ≤ 2 * 2 ^ exponent + 1)
    (collects : GarbageCollection (2 ^ exponent) cache after) :
    after.countP (·.2.done) ≤ 2 * 2 ^ exponent := by
  have sub := (garbageCollection_oldest distinct collects).1
  unfold GarbageCollection at collects
  split at collects
  · by_contra many
    obtain ⟨order, perm, -, rfl⟩ := collects
    rw [sweep_eq (Nat.two_pow_pos exponent)] at sub many
    -- then nothing that is done was removed, but there is an operation to remove
    have all := (sub.filter (·.2.done)).eq_of_length_le (by
      rw [← List.countP_eq_length_filter, ← List.countP_eq_length_filter]
      omega)
    have some' : 0 < (order.filter (·.2.done)).length := by
      rw [(perm.filter _).length_eq, ← List.countP_eq_length_filter]
      have fewer := @List.Sublist.countP_le _ (·.2.done) _ _ sub
      omega
    obtain ⟨entry, rest, shape⟩ := List.exists_cons_of_length_pos some'
    have isOldest : entry ∈ oldest (2 ^ exponent - 0) order := by
      rw [oldest, shape, Nat.sub_zero, ← Nat.succ_pred (Nat.two_pow_pos exponent).ne',
        List.take_succ_cons]
      exact mem_cons_self
    have isDone : entry ∈ cache.filter (·.2.done) := (perm.filter _).subset (shape ▸ mem_cons_self)
    rw [← all] at isDone
    have kept := (mem_filter.mp (mem_filter.mp isDone).1).2
    exact of_decide_eq_true kept (mem_map_of_mem isOldest)
  · subst collects
    exact (List.countP_le_length).trans (by omega)

/-! ## Calls -/

/-- What holds in every state if no call fails with its operation registered. -/
structure Sound (exponent : Nat) (server : ExecutionServer Response Id) : Prop where
  distinct : (server.cache.map fst).Nodup
  bounded : server.cache.countP (·.2.done) ≤ 2 * 2 ^ exponent + 1
  working : ∀ entry ∈ server.cache, entry.2.done = false →
    ∃ id, server.calls id = some ⟨entry.1, .running⟩

omit [DecidableEq Id] in
theorem Sound.sets (sound : Sound exponent server) {op : Operation Response}
    (sets : Sets (2 ^ exponent) op server.cache cache) : (cache.map fst).Nodup ∧
      cache.countP (·.2.done) ≤ 2 * 2 ^ exponent + 1 ∧
      ∀ entry ∈ cache, entry = (op.name, op) ∨ entry.1 ≠ op.name ∧ entry ∈ server.cache := by
  obtain ⟨left, collects, rfl⟩ := sets
  have sub := (garbageCollection_oldest sound.distinct collects).1
  have room := garbageCollection_room sound.distinct sound.bounded collects
  have kept : (drop op.name left).Sublist left := List.filter_sublist
  refine ⟨nodup_cons.mpr ⟨fun named => ?_, ?_⟩, ?_, fun entry member => ?_⟩
  · obtain ⟨entry, isLeft, same⟩ := mem_map.mp named
    exact of_decide_eq_true (mem_filter.mp isLeft).2 same
  · exact sound.distinct.sublist ((kept.trans sub).map _)
  · have fewer := @List.Sublist.countP_le _ (·.2.done) _ _ kept
    rw [List.countP_cons]
    split <;> omega
  · cases mem_cons.mp member with
    | inl same => exact .inl same
    | inr other =>
      obtain ⟨isLeft, unlike⟩ := mem_filter.mp other
      exact .inr ⟨of_decide_eq_true unlike, sub.subset isLeft⟩

theorem Sound.update (sound : Sound exponent server) {id : Id} {name : Str} {stage : ExecuteStage}
    (other : server.calls id = some ⟨name, stage⟩ ∨ server.calls id = none)
    (quiet : stage ≠ .running) (call : Option ExecuteCall) :
    Sound exponent { server with calls := update server.calls id call } where
  distinct := sound.distinct
  bounded := sound.bounded
  working entry member unfinished := by
    obtain ⟨worker, works⟩ := sound.working entry member unfinished
    have unlike : worker ≠ id := by
      rintro rfl
      rw [works] at other
      cases other with
      | inl same => cases same; exact quiet rfl
      | inr none => cases none
    exact ⟨worker, (update_of_ne unlike _ _).trans works⟩

theorem Sound.step (sound : Sound exponent server) (step : ExecuteStep exponent False server next) :
    Sound exponent next := by
  cases step with
  | start id name idle => exact @Sound.update _ _ _ _ _ sound _ name .starting (.inr idle) nofun _
  | reject starting => exact sound.update (.inl starting) nofun none
  | @register id name starting seconds cache sets =>
    obtain ⟨distinct, bounded, entries⟩ := sound.sets sets
    refine ⟨distinct, bounded, fun entry member unfinished => ?_⟩
    rcases entries entry member with rfl | ⟨-, before⟩
    · exact ⟨id, update_self _ _ _⟩
    · exact (sound.update (.inl starting) nofun _).working entry before unfinished
  | fail running may => exact may.elim
  | @complete id name running seconds response cache sets =>
    obtain ⟨distinct, bounded, entries⟩ := sound.sets sets
    refine ⟨distinct, bounded, fun entry member unfinished => ?_⟩
    rcases entries entry member with rfl | ⟨unlike, before⟩
    · cases unfinished
    · obtain ⟨worker, works⟩ := sound.working entry before unfinished
      have other : worker ≠ id := by
        rintro rfl
        rw [works] at running
        cases running
        exact unlike rfl
      exact ⟨worker, (update_of_ne other _ _).trans works⟩
  | finish finished => exact sound.update (.inl finished) nofun none

/-- The server before any call. -/
def idle : ExecutionServer Response Id := ⟨[], fun _ => none⟩

/-- In every state of a run in which no call fails with its operation registered, the operations of
names without an active call are done, the clean-up removes the oldest of what is done, and the
number of these is bounded. -/
theorem operations_completed (exponent : Nat)
    (run : Runs.Reaches (ExecuteStep exponent False) idle server) :
    (∀ name, (∀ id call, server.calls id = some call → call.name ≠ name) →
      (∀ op, query name server.cache = some op → op.done = true) ∧
        (waitExecution name server.cache).isSome = true) ∧
    (∀ after, GarbageCollection (2 ^ exponent) server.cache after →
      ∀ entry ∈ server.cache, entry ∉ after → entry.2.done = true ∧
        ∀ kept ∈ after, kept.2.done = true → entry.2.seconds ≤ kept.2.seconds) ∧
    server.cache.countP (·.2.done) ≤ 2 * 2 ^ exponent + 1 := by
  have first : Sound exponent (idle : ExecutionServer Response Id) :=
    ⟨nodup_nil, Nat.zero_le _, fun _ none => by cases none⟩
  have sound := Runs.invariant first (fun sound step => sound.step step) run
  refine ⟨fun name inactive => ?_, fun after collects =>
    (garbageCollection_oldest sound.distinct collects).2, sound.bounded⟩
  have finished : ∀ op, query name server.cache = some op → op.done = true := by
    intro op isCached
    obtain ⟨entry, found, rfl⟩ := map_eq_some_iff.mp isCached
    by_contra unfinished
    obtain ⟨id, works⟩ := sound.working entry (List.mem_of_find?_eq_some found)
      (Bool.eq_false_iff.mpr unfinished)
    have named : entry.1 = name := of_decide_eq_true (@List.find?_some _ (fun entry : Str × Operation Response =>
        decide (entry.1 = name)) _ _ found)
    exact inactive id _ works named
  refine ⟨finished, ?_⟩
  unfold waitExecution
  cases cached : query name server.cache with
  | none => rfl
  | some op => simp only [finished op cached, if_true, Option.isSome_some]

/-- A server with an operation of an action, and a call for it. -/
def serverAt (done : Bool) (stage : Option ExecuteStage) : ExecutionServer Unit Unit :=
  ⟨[(lit "a", ⟨lit "a", done, 1, if done then some () else none⟩)],
    fun _ => stage.map fun stage => ⟨lit "a", stage⟩⟩

theorem update_unit (calls : Unit → Option ExecuteCall) (call : Option ExecuteCall) :
    update calls () call = fun _ => call :=
  funext fun _ => update_self _ _ _

theorem reaches_running (mayFail : Prop) :
    Runs.Reaches (ExecuteStep 0 mayFail) idle (serverAt false (some .running)) := by
  have start := @ExecuteStep.start Unit Unit _ 0 mayFail idle () (lit "a") rfl
  rw [update_unit] at start
  have register := @ExecuteStep.register Unit Unit _ 0 mayFail
    ⟨[], fun _ => some ⟨lit "a", .starting⟩⟩ () (lit "a") rfl 1 _ ⟨[], rfl, rfl⟩
  rw [update_unit] at register
  exact .tail (.tail .refl start) register

theorem oneAction_completed :
    (waitExecution (lit "a") (serverAt true none).cache).isSome = true := by
  have complete := @ExecuteStep.complete Unit Unit _ 0 False (serverAt false (some .running)) ()
    (lit "a") rfl 1 () _ ⟨_, rfl, rfl⟩
  rw [update_unit] at complete
  have finish := @ExecuteStep.finish Unit Unit _ 0 False (serverAt true (some .finished)) ()
    (lit "a") rfl
  rw [update_unit] at finish
  exact ((operations_completed 0 (.tail (.tail (reaches_running False) complete) finish)).1
    (lit "a") fun id call none => by cases none).2

theorem failed_lingers : ¬ ∀ server : ExecutionServer Unit Unit,
    Runs.Reaches (ExecuteStep 0 True) idle server →
      ∀ name, (∀ id call, server.calls id = some call → call.name ≠ name) →
        (waitExecution name server.cache).isSome = true := by
  intro completed
  have fail := @ExecuteStep.fail Unit Unit _ 0 True (serverAt false (some .running)) ()
    (lit "a") rfl trivial
  rw [update_unit] at fail
  cases completed _ (.tail (reaches_running True) fail) (lit "a") fun id call none => by cases none

end Jst.Verif.Operations
