import Jst.Verif.AsyncMap.Moves
/-!
# Requests that are registered with nodes

A thread that works for a request marks nodes, queues their processing, and registers the request
and its failure function with a node, or finds the node settled.
-/
namespace Jst.Verif.AsyncMap

open Multithreading

variable {Key Value : Type}

section Queueing

variable [DecidableEq Key] {state next : State Key Value} {ghost : Ghost Key Value}
  {before after : List (Thread Key Value)} {thread : Thread Key Value}
  {request : Request Key Value} {key : Key} {rest : List Key}

theorem Created.move {phase later : Nat → Phase Key Value} {creation : Key → Creation Key Value}
    (good : Created state phase creation) {stage : Creation Key Value}
    (requests : next.requests = state.requests) (was : ∀ id, creation key ≠ .asking id)
    (is : ∀ id, stage ≠ .asking id) (awake : stage ≠ .idle)
    (own : AsyncMap.creations next key = stage.contents key) (others : ∀ other, other ≠ key →
      AsyncMap.creations next other = AsyncMap.creations state other) (marked : Marked next key)
    (marks : ∀ other, other ≠ key → (Marked next other ↔ Marked state other))
    (ready : ∀ other, other ≠ key → (Ready next other ↔ Ready state other))
    (failed : ∀ other, other ≠ key → Failed state other → Failed next other)
    (ownReady : Ready next key → stage = .done)
    (ownSettled : stage = .done → Ready next key ∨ Failed next key)
    (consumed : ∀ id, later id = .consumed ↔ phase id = .consumed) :
    Created next later (update creation key stage) where
  creations other := by
    by_cases same : other = key
    · rw [same, update_self, own]
    · rw [update_of_ne same, others other same, good.creations]
  idle other := by
    by_cases same : other = key
    · rw [same, update_self]
      exact iff_of_false awake (not_not.mpr marked)
    · rw [update_of_ne same, good.idle, marks other same]
  ready other isReady := by
    by_cases same : other = key
    · rw [same, update_self]
      exact ownReady (same ▸ isReady)
    · rw [update_of_ne same]
      exact good.ready other ((ready other same).mp isReady)
  settled other := by
    by_cases same : other = key
    · rw [same, update_self]
      exact ownSettled
    · rw [update_of_ne same, ready other same]
      exact fun done => (good.settled other done).imp_right (failed other same)
  asking other id := by
    by_cases same : other = key
    · rw [same, update_self]
      exact fun asking => absurd asking (is id)
    · rw [update_of_ne same]
      simpa only [requests, ne_eq, consumed] using good.asking other id
  asks other made caller asks open_ := by
    rw [requests] at made
    simp only [ne_eq, consumed] at open_
    by_cases same : caller = key
    · exact absurd (good.asks other made key (same ▸ asks) open_) (was other.id)
    · rw [update_of_ne same]
      exact good.asks other made caller asks open_

theorem Invariant.ensure_unmarked (good : Invariant state ghost)
    (threads : state.threads = before ++ .ensure request (key :: rest) :: after)
    (unmarked : ¬ Marked state key) :
    ∃ ghost, Invariant (({ state with threads := before ++ after }.setNode key
      { state.nodes key with queued := true }).go (.enqueue request key rest)) ghost := by
  obtain ⟨made, listed, there, -, place, fits⟩ :=
    good.progress.runs request threads (by simp [serves])
  obtain ⟨alone, queue, awaiting, consumed, phase⟩ :=
    good.progress.works request.id threads (by simp [serves])
  set next := ({ state with threads := before ++ after }.setNode key
    { state.nodes key with queued := true }).go (.enqueue request key rest) with step
  have tasks : ∀ other, (next.nodes other).awaitingTasks = (state.nodes other).awaitingTasks ∧
      (next.nodes other).failureTasks = (state.nodes other).failureTasks ∧
      (next.nodes other).value = (state.nodes other).value ∧
      (next.nodes other).failed = (state.nodes other).failed := by
    intro other
    by_cases same : other = key
    · simp [step, State.go, State.setNode, same]
    · simp [step, State.go, State.setNode, same]
  have marks : ∀ other, Marked next other ↔ other = key ∨ Marked state other := by
    intro other
    by_cases same : other = key
    · simp [step, State.go, State.setNode, same, Marked]
    · simp [step, State.go, State.setNode, same, Marked]
  have flags : SameFlags state next :=
    ⟨fun other marked => (marks other).mpr (.inr marked), fun other => (tasks other).2.2.1,
      fun other => (tasks other).2.2.2⟩
  cases fits with
  | ensure _ some' passed =>
    have quiet : ∀ id, AsyncMap.reported next id = AsyncMap.reported state id := fun id => by
      simp only [AsyncMap.reported, Node.isReady, (tasks _).2.1, (tasks _).2.2.1]
      rfl
    have moves : Moves state next request (.running (.enqueue request key rest)) .none := {
      made := listed
      requests := rfl
      flags := flags
      own := Contents.ext (filter_last alone (by simp [serves])) queue (funext fun other => by
          simpa only [AsyncMap.contents, (tasks other).1, Phase.contents] using awaiting other)
          consumed
      others id unlike := by
        refine Contents.ext ?_ rfl (funext fun other => ?_) rfl
        · simp [AsyncMap.contents, step, State.go, State.setNode, threads, serves, unlike.symm]
        · simp only [AsyncMap.contents, (tasks other).1]
      ownReport := good.progress.kept quiet place
      otherReports id _ := quiet id
      fits := by
        obtain ⟨done, keys, before⟩ := passed
        exact .enqueue key rest ((marks key).mpr (.inl rfl))
          ⟨done, keys, fun other member => (marks other).mpr (.inr (before other member))⟩
      failures := by
        intro other held
        simp only [Holds, (tasks _).2.1] at held
        exact .inl held
      recorded _ _ _ _ waits := by cases waits
      values _ _ := .inl
      settled called := by cases called
      records := fun caller node known =>
        (records_left threads (by simp) caller node known).imp_right (mem_append_left _) }
    refine ⟨⟨_, _, update ghost.creation key (.enqueuing request rest)⟩, ?_,
      good.progress.move moves, ?_⟩
    · refine ⟨fun other => ?_, fun other => ?_, fun other => ?_⟩
      · rw [flags.ready, flags.failed_iff]
        exact good.nodes.exclusive other
      · rw [(tasks other).1]
        exact good.nodes.awaitingTasks other
      · rw [(tasks other).2.1]
        exact good.nodes.failureTasks other
    · have idle : ghost.creation key = .idle := (good.created.idle key).mpr unmarked
      have held := good.created.creations key
      rw [idle] at held
      simp only [AsyncMap.creations, Creation.contents, Creations.mk.injEq, threads] at held
      refine good.created.move rfl (by simp [idle]) (by simp) (by simp) ?_ ?_
        ((marks key).mpr (.inl rfl)) (fun other unlike => by simp [marks, unlike])
        (fun other _ => flags.ready other) (fun other _ => (flags.failed_iff other).mpr) ?_
        (by simp) (consumed_update (by simp) (by simp [phase]))
      · refine Creations.ext ?_ held.2.1 held.2.2
        have none := held.1
        simp only [filter_append, filter_cons, creates, false_eq_true, if_false] at none
        have only : (before ++ after ++ [Thread.enqueue request key rest]).filter (creates key) =
            [.enqueue request key rest] := by
          rw [filter_append, filter_append, none]
          simp [creates]
        exact only
      · intro other unlike
        have no : ¬ key = other := Ne.symm unlike
        simp [AsyncMap.creations, step, State.go, State.setNode, creates, threads, no]
      · intro isReady
        have done := good.created.ready key ((flags.ready key).mp isReady)
        rw [idle] at done
        cases done

end Queueing

section Queued

variable [DecidableEq Key] {state : State Key Value} {ghost : Ghost Key Value}
  {before after : List (Thread Key Value)} {request : Request Key Value} {key : Key}
  {rest : List Key}

theorem Invariant.enqueue (good : Invariant state ghost)
    (threads : state.threads = before ++ .enqueue request key rest :: after) :
    ∃ ghost, Invariant (({ state with threads := before ++ after }.queueTasks
      [.process key request.loggers]).go (.ensure request rest)) ghost := by
  obtain ⟨made, listed, there, -, place, fits⟩ :=
    good.progress.runs request threads (by simp [serves])
  obtain ⟨alone, queue, awaiting, consumed, phase⟩ :=
    good.progress.works request.id threads (by simp [serves])
  have enqueuing : ghost.creation key = .enqueuing request rest :=
    good.created.enqueue (threads ▸ by simp)
  set next := ({ state with threads := before ++ after }.queueTasks
      [.process key request.loggers]).go (.ensure request rest) with step
  have flags : SameFlags state next := .refl rfl
  cases fits with
  | enqueue _ _ marked passed =>
    have quiet : ∀ id, AsyncMap.reported next id = AsyncMap.reported state id := fun id => by
      simp [AsyncMap.reported, step, State.go, State.queueTasks, reports]
    have moves : Moves state next request (.running (.ensure request rest)) .none := {
      made := listed
      requests := rfl
      flags := flags
      own := by
        have only : (before ++ after ++ [Thread.ensure request rest]).filter
            (serves request.id) = [.ensure request rest] := by
          rw [filter_append, alone]
          simp [serves]
        have none : (state.queue ++ [Task.process key request.loggers]).filter
            (advances request.id) = [] := by
          rw [filter_append, queue]
          simp [advances]
        exact Contents.ext only none (funext awaiting) consumed
      others id unlike := by
        have no : ¬ request.id = id := Ne.symm unlike
        simp [AsyncMap.contents, step, State.go, State.queueTasks, threads, serves, no, advances]
      ownReport := good.progress.kept quiet place
      otherReports id _ := quiet id
      fits := by
        obtain ⟨done, keys, before⟩ := passed
        refine .ensure rest (by simp [keys]) ⟨done ++ [key], by simpa using keys, ?_⟩
        intro other member
        cases mem_append.mp member with
        | inl inside => exact before other inside
        | inr same => exact mem_singleton.mp same ▸ marked
      failures := by
        intro other held
        simpa [Holds, step, State.go, State.queueTasks] using Or.inl held
      recorded _ _ _ _ waits := by cases waits
      values _ _ := .inl
      settled called := by cases called
      records := fun caller node known =>
        (records_left threads (by simp) caller node known).imp_right (mem_append_left _) }
    refine ⟨⟨_, _, update ghost.creation key (.queued request.loggers)⟩,
      good.nodes.same rfl, good.progress.move moves, ?_⟩
    have held := good.created.creations key
    rw [enqueuing] at held
    simp only [AsyncMap.creations, Creation.contents, Creations.mk.injEq] at held
    have unready : ¬ Ready state key := by
      intro isReady
      have done := good.created.ready key isReady
      rw [enqueuing] at done
      cases done
    refine good.created.move rfl (by simp [enqueuing]) (by simp) (by simp) ?_ ?_ marked
      (fun _ _ => Iff.rfl) (fun _ _ => Iff.rfl) (fun _ _ => id)
      (fun isReady => absurd isReady unready) (by simp) (consumed_update (by simp) (by simp [phase]))
    · have none : (before ++ after ++ [Thread.ensure request rest]).filter (creates key) = [] := by
        rw [filter_append, good.created.alone threads (by simp [creates])]
        simp [creates]
      have only : (state.queue ++ [Task.process key request.loggers]).filter (starts key) =
          [.process key request.loggers] := by
        rw [filter_append, held.2.1]
        simp [starts]
      exact Creations.ext none only held.2.2
    · intro other unlike
      have no : ¬ key = other := Ne.symm unlike
      simp [AsyncMap.creations, step, State.go, State.queueTasks, creates, starts, threads, no]

theorem Invariant.ready (good : Invariant state ghost) {thread : Thread Key Value}
    (threads : state.threads = before ++ thread :: after) (was : Serves request thread)
    (made : request ∈ state.requests) (reached : Reached state request (key :: rest))
    (registered : Registered state request key (ghost.report request.id))
    (isReady : Ready state key) :
    ∃ ghost, Invariant ({ state with threads := before ++ after }.queueTasks
      [.whenAllReady request rest]) ghost := by
  obtain ⟨alone, queue, awaiting, consumed, phase⟩ := good.progress.works request.id threads was.own
  set next := { state with threads := before ++ after }.queueTasks [.whenAllReady request rest]
    with step
  have flags : SameFlags state next := .refl rfl
  -- a failure function stays with a node only as long as the node is not ready
  have unreported : ghost.report request.id = .none := by
    unfold Registered at registered
    split at registered
    · rcases registered with ⟨-, none⟩ | ⟨unready, -⟩ | ⟨failed, -⟩
      · exact none
      · exact absurd isReady unready
      · exact absurd failed (good.nodes.exclusive key isReady)
    · exact registered
  have quiet : ∀ id, AsyncMap.reported next id = AsyncMap.reported state id := fun id => by
    simp [AsyncMap.reported, step, State.queueTasks, reports]
  have moves : Moves state next request (.queued (.whenAllReady request rest)) .none := {
    made := made
    requests := rfl
    flags := flags
    own := by
      have only : (state.queue ++ [Task.whenAllReady request rest]).filter
          (advances request.id) = [.whenAllReady request rest] := by
        rw [filter_append, queue]
        simp [advances]
      exact Contents.ext alone only (funext awaiting) consumed
    others id unlike := by
      simp [AsyncMap.contents, step, State.queueTasks, threads, was.serves, unlike.symm, advances]
    ownReport := good.progress.kept quiet unreported
    otherReports id _ := quiet id
    fits := by
      obtain ⟨done, keys, ready⟩ := reached.passed
      refine .whenAllReady rest ⟨reached.marked, done ++ [key], by simpa using keys, ?_⟩
      intro other member
      cases mem_append.mp member with
      | inl inside => exact ready other inside
      | inr same => exact mem_singleton.mp same ▸ isReady
    failures := by
      intro other held
      simp only [Holds, step, State.queueTasks, mem_append, mem_singleton, reduceCtorEq,
        or_false] at held
      exact .inl held
    recorded _ _ _ _ waits := by cases waits
    values _ _ := .inl
    settled called := by cases called
    records := records_left threads was.records }
  refine good.move moves (good.nodes.same rfl) (fun _ => id) (by simp [phase]) (by simp) ?_
  intro other
  simp [AsyncMap.creations, step, State.queueTasks, threads, was.creates, starts]

theorem Invariant.dropped (good : Invariant state ghost) {thread : Thread Key Value}
    (threads : state.threads = before ++ thread :: after) (was : Serves request thread)
    (made : request ∈ state.requests) (reached : Reached state request (key :: rest))
    (registered : Registered state request key (ghost.report request.id))
    (failed : Failed state key) :
    ∃ ghost, Invariant { state with threads := before ++ after } ghost := by
  obtain ⟨alone, queue, awaiting, consumed, phase⟩ := good.progress.works request.id threads was.own
  have flags : SameFlags state { state with threads := before ++ after } := .refl rfl
  have moves : Moves state { state with threads := before ++ after } request (.dropped key)
      (ghost.report request.id) := {
    made := made
    requests := rfl
    flags := flags
    own := Contents.ext alone queue (funext awaiting) consumed
    others id unlike := by
      simp [AsyncMap.contents, threads, was.serves, unlike.symm]
    ownReport := good.progress.reported request.id
    otherReports _ _ := rfl
    fits := by
      obtain ⟨done, keys, -⟩ := reached.passed
      exact (Fits.dropped key (by simp [keys]) failed _ registered).same flags
    failures _ := .inl
    recorded _ _ _ _ waits := by cases waits
    values _ _ := .inl
    records := records_left threads was.records
    settled called caller asks := good.progress.settled request made caller asks called }
  refine good.move moves (good.nodes.same rfl) (fun _ => id) (by simp [phase]) (by simp) ?_
  intro other
  simp [AsyncMap.creations, threads, was.creates]

end Queued

section Registering

variable [DecidableEq Key] {state : State Key Value} {ghost : Ghost Key Value}
  {before after : List (Thread Key Value)} {request : Request Key Value} {key : Key}
  {rest : List Key}

theorem Progress.unreported {phase : Nat → Phase Key Value} {report : Nat → Report Key}
    (good : Progress state phase report) {id : Nat} (none : report id = .none) :
    state.queue.countP (reports id) = 0 ∧
      (∀ key, ¬ Ready state key → (state.nodes key).failureTasks.countP (reports id) = 0) ∧
      state.events.countP (isFailed id) = 0 := by
  have held := good.reported id
  rw [none] at held
  simp only [AsyncMap.reported, Report.contents, Reports.mk.injEq] at held
  refine ⟨held.1, fun key unready => ?_, held.2.2⟩
  have here := congrFun held.2.1 key
  exact (if_neg unready).symm.trans here

section

variable (good : Invariant state ghost)
  (threads : state.threads = before ++ .onFailureLocked request (key :: rest) :: after)
include good threads

theorem Invariant.onFailure_failed (failed : Failed state key) :
    ∃ ghost, Invariant (({ state with threads := before ++ after }.queueTasks
      [.fail request]).go (.await request (key :: rest))) ghost := by
  obtain ⟨made, listed, there, -, place, fits⟩ :=
    good.progress.runs request threads (by simp [serves])
  obtain ⟨alone, queue, awaiting, consumed, phase⟩ :=
    good.progress.works request.id threads (by simp [serves])
  set next := ({ state with threads := before ++ after }.queueTasks
      [.fail request]).go (.await request (key :: rest)) with step
  have flags : SameFlags state next := .refl rfl
  cases fits with
  | onFailureLocked _ _ reached hasFail =>
    obtain ⟨unqueued, unregistered, uncalled⟩ := good.progress.unreported place
    have moves : Moves state next request (.running (.await request (key :: rest))) .queued := {
      made := listed
      requests := rfl
      flags := flags
      own := by
        have only : (before ++ after ++ [Thread.await request (key :: rest)]).filter
            (serves request.id) = [.await request (key :: rest)] := by
          rw [filter_append, alone]
          simp [serves]
        have none : (state.queue ++ [Task.fail request]).filter (advances request.id) = [] := by
          rw [filter_append, queue]
          simp [advances]
        exact Contents.ext only none (funext awaiting) consumed
      others id unlike := by
        have no : ¬ request.id = id := Ne.symm unlike
        simp [AsyncMap.contents, step, State.go, State.queueTasks, threads, serves, no, advances]
      ownReport := by
        have once : (state.queue ++ [Task.fail request]).countP (reports request.id) = 1 := by
          rw [List.countP_append, unqueued]
          simp [reports]
        refine Reports.ext once (funext fun other => ?_) uncalled
        by_cases isReady : Ready state other
        · exact if_pos isReady
        · exact (if_neg isReady).trans (unregistered other isReady)
      otherReports := by
        intro id unlike
        simp [AsyncMap.reported, step, State.go, State.queueTasks, reports, unlike.symm]
      fits := by
        refine (Fits.await key rest reached .queued ?_).same flags
        rw [Registered, if_pos hasFail]
        exact .inr (.inr ⟨failed, .inl rfl⟩)
      failures := by
        intro other held
        simp only [Holds, step, State.go, State.queueTasks, mem_append, mem_singleton,
          Task.fail.injEq] at held
        simp only [Holds]
        tauto
      recorded _ _ _ _ waits := by cases waits
      values _ _ := .inl
      settled called := by cases called
      records := fun caller node known =>
        (records_left threads (by simp) caller node known).imp_right (mem_append_left _) }
    refine good.move moves (good.nodes.same rfl) (fun _ => id) (by simp [phase]) (by simp) ?_
    intro other
    simp [AsyncMap.creations, step, State.go, State.queueTasks, threads, creates, starts]

theorem Invariant.onFailure_registered (unfailed : ¬ Failed state key) :
    ∃ ghost, Invariant (({ state with threads := before ++ after }.setNode key
      { state.nodes key with
        failureTasks := (state.nodes key).failureTasks ++ [Task.fail request] }).go
      (.await request (key :: rest))) ghost := by
  obtain ⟨made, listed, there, -, place, fits⟩ :=
    good.progress.runs request threads (by simp [serves])
  obtain ⟨alone, queue, awaiting, consumed, phase⟩ :=
    good.progress.works request.id threads (by simp [serves])
  set next := ({ state with threads := before ++ after }.setNode key
      { state.nodes key with
        failureTasks := (state.nodes key).failureTasks ++ [Task.fail request] }).go
      (.await request (key :: rest)) with step
  have node : ∀ other, (next.nodes other).awaitingTasks = (state.nodes other).awaitingTasks ∧
      (next.nodes other).queued = (state.nodes other).queued ∧
      (next.nodes other).value = (state.nodes other).value ∧
      (next.nodes other).failed = (state.nodes other).failed := by
    intro other
    by_cases same : other = key
    · simp [step, State.go, State.setNode, same]
    · simp [step, State.go, State.setNode, same]
  have tasks : ∀ other, (next.nodes other).failureTasks = (state.nodes other).failureTasks ++
      if other = key then [Task.fail request] else [] := by
    intro other
    by_cases same : other = key
    · simp [step, State.go, State.setNode, same]
    · simp [step, State.go, State.setNode, same]
  have flags : SameFlags state next :=
    ⟨fun other => by simp [Marked, (node other).2.1], fun other => (node other).2.2.1,
      fun other => (node other).2.2.2⟩
  cases fits with
  | onFailureLocked _ _ reached hasFail =>
    obtain ⟨unqueued, unregistered, uncalled⟩ := good.progress.unreported place
    -- a node that has got ready since the check keeps the function, but never calls it
    let there : Report Key := if (state.nodes key).isReady then .none else .registered key
    have counts : ∀ id other, (AsyncMap.reported next id).nodes other =
        if (state.nodes other).isReady = true then 0
        else (state.nodes other).failureTasks.countP (reports id) +
          if other = key ∧ request.id = id then 1 else 0 := by
      intro id other
      simp only [AsyncMap.reported, Node.isReady, (node other).2.2.1, tasks, List.countP_append]
      by_cases same : other = key
      · by_cases mine : request.id = id <;> simp [same, mine, reports]
      · simp [same]
    have moves : Moves state next request (.running (.await request (key :: rest))) there := {
      made := listed
      requests := rfl
      flags := flags
      own := Contents.ext (filter_last alone (by simp [serves])) queue (funext fun other => by
          simpa only [AsyncMap.contents, (node other).1, Phase.contents] using awaiting other)
          consumed
      others id unlike := by
        refine Contents.ext ?_ rfl (funext fun other => ?_) rfl
        · simp [AsyncMap.contents, step, State.go, State.setNode, threads, serves, unlike.symm]
        · simp only [AsyncMap.contents, (node other).1]
      ownReport := by
        have count : ∀ other, (AsyncMap.reported next request.id).nodes other =
            there.contents.nodes other := by
          intro other
          rw [counts]
          by_cases isReady : (state.nodes other).isReady = true
          · by_cases same : other = key
            · simp [there, ← same, isReady, Report.contents]
            · by_cases ready : (state.nodes key).isReady = true <;>
                simp [there, ready, same, isReady, Report.contents]
          · rw [if_neg isReady, unregistered other isReady]
            by_cases same : other = key
            · have unready := same ▸ isReady
              simp [there, same, unready, Report.contents]
            · by_cases ready : (state.nodes key).isReady = true <;>
                simp [there, ready, same, Report.contents]
        have queue' : there.contents.queue = 0 := by
          by_cases ready : (state.nodes key).isReady = true <;> simp [there, ready, Report.contents]
        have called' : there.contents.called = 0 := by
          by_cases ready : (state.nodes key).isReady = true <;> simp [there, ready, Report.contents]
        exact Reports.ext (unqueued.trans queue'.symm) (funext count)
          (uncalled.trans called'.symm)
      otherReports := by
        intro id unlike
        refine Reports.ext rfl (funext fun other => ?_) rfl
        rw [counts]
        simp [AsyncMap.reported, unlike.symm]
      fits := by
        refine (Fits.await key rest reached there ?_).same flags
        rw [Registered, if_pos hasFail]
        by_cases ready : Ready state key
        · exact .inl ⟨ready, if_pos ready⟩
        · exact .inr (.inl ⟨ready, unfailed, if_neg ready⟩)
      failures := by
        intro other held
        cases held with
        | inl queued => exact .inl (.inl queued)
        | inr stored =>
          obtain ⟨where', member⟩ := stored
          rw [tasks, mem_append] at member
          cases member with
          | inl inside => exact .inl (.inr ⟨where', inside⟩)
          | inr new =>
            by_cases same : where' = key
            · rw [if_pos same, mem_singleton, Task.fail.injEq] at new
              exact .inr new
            · rw [if_neg same] at new
              cases new
      recorded _ _ _ _ waits := by cases waits
      values _ _ := .inl
      records := fun caller node known =>
        (records_left threads (by simp) caller node known).imp_right (mem_append_left _)
      settled := by
        intro called
        by_cases ready : (state.nodes key).isReady = true <;> simp [there, ready] at called }
    refine ⟨⟨_, _, ghost.creation⟩, ?_, good.progress.move moves, ?_⟩
    · refine ⟨fun other => ?_, fun other => ?_, fun other task member => ?_⟩
      · rw [flags.ready, flags.failed_iff]
        exact good.nodes.exclusive other
      · rw [(node other).1]
        exact good.nodes.awaitingTasks other
      · rw [tasks] at member
        cases mem_append.mp member with
        | inl inside => exact good.nodes.failureTasks other task inside
        | inr new =>
          by_cases same : other = key
          · rw [if_pos same] at new
            exact ⟨request, mem_singleton.mp new⟩
          · rw [if_neg same] at new
            cases new
    · refine good.created.same rfl flags (fun other => by simp [Marked, (node other).2.1]) ?_
        (consumed_update (by simp) (by simp [phase]))
      intro other
      simp [AsyncMap.creations, step, State.go, State.setNode, threads, creates]

end

end Registering

section Recording

variable [DecidableEq Key] {state : State Key Value} {ghost : Ghost Key Value}
  {before after : List (Thread Key Value)} {thread : Thread Key Value}
  {request : Request Key Value} {key : Key} {rest : List Key}

/-- The threads that are about to record a request. -/
def recording (request : Request Key Value) (node : Key) : List (Thread Key Value) :=
  request.consumerId.toList.map fun caller => .record caller node

omit [DecidableEq Key] in
theorem recordUnless_false (state : State Key Value) (request : Request Key Value) (node : Key) :
    state.recordUnless false request node =
      { state with threads := state.threads ++ recording request node } := by
  unfold State.recordUnless recording
  cases request.consumerId with
  | none => simp
  | some caller => simp [State.go]

theorem Progress.threads {phase : Nat → Phase Key Value} {report : Nat → Report Key}
    (good : Progress state phase report) {next : State Key Value}
    {threads : List (Thread Key Value)} {nodeRequests : List (Key × Key)}
    (changed : next = { state with threads := threads, nodeRequests := nodeRequests })
    (serving : ∀ id, threads.filter (serves id) = state.threads.filter (serves id))
    (records : ∀ caller key,
      (caller, key) ∈ state.nodeRequests ∨ .record caller key ∈ state.threads →
        (caller, key) ∈ nodeRequests ∨ .record caller key ∈ threads) :
    Progress next phase report := by
  subst changed
  have flags : SameFlags state { state with threads := threads, nodeRequests := nodeRequests } :=
    .refl rfl
  exact {
    contents := fun id => by
      rw [← good.contents id]
      simp only [AsyncMap.contents, serving]
    reported := good.reported
    fits := fun request made => (good.fits request made).same flags
    absent := good.absent
    numbered := good.numbered
    failures := good.failures
    recorded := fun request made caller key task asks waits =>
      records caller key (good.recorded request made caller key task asks waits)
    values := good.values
    settled := good.settled }

section

variable (good : Invariant state ghost)
include good

theorem Invariant.threads {next : State Key Value} {threads : List (Thread Key Value)}
    {nodeRequests : List (Key × Key)}
    (changed : next = { state with threads := threads, nodeRequests := nodeRequests })
    (serving : ∀ id, threads.filter (serves id) = state.threads.filter (serves id))
    (creating : ∀ key, threads.filter (creates key) = state.threads.filter (creates key))
    (records : ∀ caller key,
      (caller, key) ∈ state.nodeRequests ∨ .record caller key ∈ state.threads →
        (caller, key) ∈ nodeRequests ∨ .record caller key ∈ threads) : Invariant next ghost := by
  have progress := good.progress.threads changed serving records
  subst changed
  refine ⟨good.nodes.same rfl, progress, ?_⟩
  refine good.created.same rfl (.refl rfl) (fun _ marked => marked) ?_ fun _ => Iff.rfl
  intro key
  simp only [AsyncMap.creations, creating]

theorem Invariant.go (idle : Idle thread) : Invariant (state.go thread) ghost := by
  refine good.threads rfl (fun id => ?_) (fun key => ?_) fun caller key known => ?_
  · simp [idle.serves]
  · simp [idle.creates]
  · exact known.imp_right fun member => mem_append_left _ member

theorem Invariant.stop (threads : state.threads = before ++ thread :: after) (idle : Idle thread)
    (unlike : ∀ caller key, thread ≠ .record caller key) :
    Invariant { state with threads := before ++ after } ghost := by
  refine good.threads rfl (fun id => ?_) (fun key => ?_) fun caller key known => ?_
  · simp [threads, idle.serves]
  · simp [threads, idle.creates]
  · refine known.imp_right fun member => ?_
    have other := (unlike caller key).symm
    simp only [threads, mem_append, mem_cons] at member
    simp only [mem_append]
    tauto

theorem Invariant.record {caller node : Key}
    (threads : state.threads = before ++ .record caller node :: after) :
    Invariant ({ state with threads := before ++ after }.advance (.record caller node)) ghost := by
  refine good.threads rfl (fun id => ?_) (fun key => ?_) fun caller' key known => ?_
  · simp [threads, serves]
  · simp [threads, creates]
  · simp only [threads, mem_append, mem_cons, Thread.record.injEq] at known
    simp only [mem_append, mem_singleton, Prod.mk.injEq]
    tauto

theorem Invariant.awaits
    (threads : state.threads = before ++ .awaitLocked request (key :: rest) :: after)
    (unready : ¬ Ready state key) (unfailed : ¬ Failed state key) :
    ∃ ghost, Invariant (({ state with threads := before ++ after }.setNode key
      { state.nodes key with
        awaitingTasks := (state.nodes key).awaitingTasks ++
          [Task.whenAllReady request rest] }).recordUnless false request key) ghost := by
  obtain ⟨made, listed, there, -, place, fits⟩ :=
    good.progress.runs request threads (by simp [serves])
  obtain ⟨alone, queue, awaiting, consumed, phase⟩ :=
    good.progress.works request.id threads (by simp [serves])
  rw [recordUnless_false]
  set next : State Key Value :=
    { ({ state with threads := before ++ after }.setNode key
        { state.nodes key with
          awaitingTasks := (state.nodes key).awaitingTasks ++
            [Task.whenAllReady request rest] }) with
      threads := before ++ after ++ recording request key } with step
  change ∃ ghost, Invariant next ghost
  have node : ∀ other, (next.nodes other).failureTasks = (state.nodes other).failureTasks ∧
      (next.nodes other).queued = (state.nodes other).queued ∧
      (next.nodes other).value = (state.nodes other).value ∧
      (next.nodes other).failed = (state.nodes other).failed := by
    intro other
    by_cases same : other = key
    · simp [step, State.setNode, same]
    · simp [step, State.setNode, same]
  have tasks : ∀ other, (next.nodes other).awaitingTasks = (state.nodes other).awaitingTasks ++
      if other = key then [Task.whenAllReady request rest] else [] := by
    intro other
    by_cases same : other = key
    · simp [step, State.setNode, same]
    · simp [step, State.setNode, same]
  have flags : SameFlags state next :=
    ⟨fun other => by simp [Marked, (node other).2.1], fun other => (node other).2.2.1,
      fun other => (node other).2.2.2⟩
  have idle : ∀ thread ∈ recording request key, Idle thread := by
    intro thread member
    obtain ⟨caller, -, rfl⟩ := mem_map.mp member
    exact ⟨fun _ => rfl, fun _ => rfl⟩
  have serving : ∀ id, (recording request key).filter (serves id) = [] := fun id =>
    List.filter_eq_nil_iff.mpr fun thread member => by simp [(idle thread member).serves]
  have creating : ∀ other, (recording request key).filter (creates other) = [] := fun other =>
    List.filter_eq_nil_iff.mpr fun thread member => by simp [(idle thread member).creates]
  cases fits with
  | awaitLocked _ _ reached _ registered =>
    have quiet : ∀ id, AsyncMap.reported next id = AsyncMap.reported state id := fun id => by
      simp only [AsyncMap.reported, Node.isReady, (node _).1, (node _).2.2.1]
      rfl
    have moves : Moves state next request (.awaiting key (.whenAllReady request rest)) there := {
      made := listed
      requests := rfl
      flags := flags
      own := by
        have none : (before ++ after ++ recording request key).filter (serves request.id) = [] := by
          rw [filter_append, alone, serving]
          rfl
        refine Contents.ext none queue (funext fun other => ?_) consumed
        simp only [AsyncMap.contents, tasks, filter_append, awaiting, Phase.contents]
        by_cases same : other = key <;> simp [same, advances]
      others id unlike := by
        have no : ¬ request.id = id := Ne.symm unlike
        refine Contents.ext ?_ rfl (funext fun other => ?_) rfl
        · have same : (before ++ after ++ recording request key).filter (serves id) =
              state.threads.filter (serves id) := by
            rw [filter_append, serving, threads]
            simp [serves, no]
          exact same
        · simp only [AsyncMap.contents, tasks, filter_append]
          by_cases same : other = key <;> simp [same, advances, no]
      ownReport := good.progress.kept quiet place
      otherReports id _ := quiet id
      fits := (Fits.awaiting key rest reached unready unfailed there registered).same flags
      failures := by
        intro other held
        simp only [Holds, (node _).1] at held
        exact .inl held
      recorded := by
        intro caller other task asks waits
        cases waits
        refine .inr (mem_append_right _ ?_)
        exact mem_map.mpr ⟨caller, by simp [asks], rfl⟩
      values _ _ := .inl
      records := by
        intro caller node known
        refine known.imp id fun member => ?_
        simp only [threads, mem_append, mem_cons, reduceCtorEq, false_or] at member
        exact mem_append_left _ (mem_append.mpr member)
      settled := by
        intro called caller asks
        rw [flags.ready, flags.failed_iff]
        exact good.progress.settled request listed caller asks (place.trans called) }
    refine ⟨⟨_, _, ghost.creation⟩, ?_, good.progress.move moves, ?_⟩
    · refine ⟨fun other => ?_, fun other task member => ?_, fun other => ?_⟩
      · rw [flags.ready, flags.failed_iff]
        exact good.nodes.exclusive other
      · rw [tasks] at member
        cases mem_append.mp member with
        | inl inside => exact good.nodes.awaitingTasks other task inside
        | inr new =>
          by_cases same : other = key
          · rw [if_pos same] at new
            exact ⟨request, rest, mem_singleton.mp new⟩
          · rw [if_neg same] at new
            cases new
      · rw [(node other).1]
        exact good.nodes.failureTasks other
    · refine good.created.same rfl flags (fun other => by simp [Marked, (node other).2.1]) ?_
        (consumed_update (by simp) (by simp [phase]))
      intro other
      have same : (before ++ after ++ recording request key).filter (creates other) =
          state.threads.filter (creates other) := by
        rw [filter_append, creating, threads]
        simp [creates]
      exact Creations.ext same rfl rfl

end

end Recording

end Jst.Verif.AsyncMap
