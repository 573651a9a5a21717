import Jst.Verif.AsyncMap.Settling
/-!
# New requests and tasks that are run

A request is made from outside or by a creator; the tasks of the task system are run in any order.
-/
namespace Jst.Verif.AsyncMap

open Multithreading

variable {Key Value : Type}

section Requests

variable [DecidableEq Key] {state next : State Key Value} {ghost : Ghost Key Value}
  {request : Request Key Value} {place : Phase Key Value}

variable {phase : Nat → Phase Key Value} {report : Nat → Report Key}

theorem Progress.id_lt
    (good : Progress state phase report) (made : request ∈ state.requests) :
    request.id < state.requests.length := by
  obtain ⟨index, found⟩ := List.mem_iff_getElem?.mp made
  rw [good.numbered index request found]
  exact (List.getElem?_eq_some_iff.mp found).1

/-- A request is made, and put into its first place. -/
structure Issues (state next : State Key Value) (request : Request Key Value)
    (place : Phase Key Value) : Prop where
  numbered : request.id = state.requests.length
  requests : next.requests = state.requests ++ [request]
  nodes : next.nodes = state.nodes
  nodeRequests : next.nodeRequests = state.nodeRequests
  records : ∀ caller key, .record caller key ∈ state.threads → .record caller key ∈ next.threads
  events : next.events = state.events
  failures : ∀ other, Holds next other → Holds state other
  reports : ∀ id, next.queue.countP (reports id) = state.queue.countP (reports id)
  own : contents next request.id = place.contents
  others : ∀ id, id ≠ request.id → contents next id = contents state id
  fits : Fits next request place .none
  first : place ≠ .consumed ∧ ∀ key task, place ≠ .awaiting key task

theorem Progress.issue
    (good : Progress state phase report) (issues : Issues state next request place) :
    Progress next (update phase request.id place) report := by
  have flags : SameFlags state next := .refl issues.nodes
  have none : report request.id = .none := (good.absent _ (Nat.le_of_eq issues.numbered.symm)).2
  have older : ∀ other ∈ state.requests, other.id ≠ request.id := by
    intro other made
    have := good.id_lt made
    rw [issues.numbered]
    omega
  exact {
    contents := fun id => by
      by_cases same : id = request.id
      · rw [same, update_self, issues.own]
      · rw [update_of_ne same, issues.others id same, good.contents]
    reported := fun id => by
      rw [← good.reported]
      simp only [AsyncMap.reported, issues.reports, issues.nodes, issues.events]
    fits := fun other made => by
      rw [issues.requests] at made
      cases mem_append.mp made with
      | inl inside =>
        rw [update_of_ne (older other inside)]
        exact (good.fits other inside).same flags
      | inr new =>
        rw [mem_singleton.mp new, update_self, none]
        exact issues.fits
    absent := fun id outside => by
      rw [issues.requests, length_append, length_singleton] at outside
      have unlike : id ≠ request.id := by
        rw [issues.numbered]
        omega
      rw [update_of_ne unlike]
      exact good.absent id (by omega)
    numbered := fun id other found => by
      rw [issues.requests] at found
      by_cases inside : id < state.requests.length
      · rw [List.getElem?_append_left inside] at found
        exact good.numbered id other found
      · have last : id = state.requests.length := by
          have bound := (List.getElem?_eq_some_iff.mp found).1
          rw [length_append, length_singleton] at bound
          omega
        rw [last, List.getElem?_concat_length] at found
        cases found
        rw [last, issues.numbered]
    failures := fun other held =>
      issues.requests ▸ mem_append_left _ (good.failures other (issues.failures other held))
    recorded := fun other made caller key task asks waits => by
      rw [issues.requests] at made
      cases mem_append.mp made with
      | inl inside =>
        rw [update_of_ne (older other inside)] at waits
        rw [issues.nodeRequests]
        exact (good.recorded other inside caller key task asks waits).imp_right
          (issues.records caller key)
      | inr new =>
        rw [mem_singleton.mp new, update_self] at waits
        exact absurd waits (issues.first.2 key task)
    values := fun other values event => by
      rw [issues.events] at event
      rw [flags.values]
      exact good.values other values event
    settled := fun other made caller asks called => by
      rw [issues.requests] at made
      rw [flags.ready, flags.failed_iff]
      cases mem_append.mp made with
      | inl inside => exact good.settled other inside caller asks called
      | inr new =>
        rw [mem_singleton.mp new, none] at called
        cases called }

theorem consumeAfterKeysReady_issues
    (good : Progress state phase report) (keys : List Key)
    (consumer : Multithreading.Consumer Key Value) :
    let request : Request Key Value :=
      { id := state.requests.length, keys := keys, consumer := consumer }
    ∃ place, Issues state (state.consumeAfterKeysReady keys consumer) request place ∧
      (∀ key, (state.consumeAfterKeysReady keys consumer).threads.filter (creates key) =
        state.threads.filter (creates key)) ∧
      ∀ key, (state.consumeAfterKeysReady keys consumer).queue.filter (starts key) =
        state.queue.filter (starts key) := by
  intro request
  have fresh := good.contents state.requests.length
  rw [(good.absent _ le_rfl).1] at fresh
  simp only [contents, Phase.contents, Contents.mk.injEq] at fresh
  obtain ⟨noThread, noTask, noNode, unconsumed⟩ := fresh
  unfold State.consumeAfterKeysReady
  by_cases empty : keys = []
  · rw [if_pos empty]
    refine ⟨.queued (.consume request), ?_, fun key => rfl, fun key => ?_⟩
    · exact {
        numbered := rfl
        requests := rfl
        nodes := rfl
        nodeRequests := rfl
        records := fun _ _ => id
        events := rfl
        failures other held := by simpa [Holds, State.queueTasks] using held
        reports := fun id => by simp [State.queueTasks, reports]
        own := by
          have only : (state.queue ++ [Task.consume request]).filter (advances request.id) =
              [.consume request] := by
            rw [filter_append, noTask]
            simp [advances]
          exact Contents.ext noThread only noNode unconsumed
        others := fun id unlike => by
          have no : ¬ state.requests.length = id := Ne.symm unlike
          simp [contents, State.queueTasks, advances, no]
        fits := .consume (by simp [request, empty])
        first := by simp }
    · simp [State.queueTasks, starts]
  · rw [if_neg empty]
    refine ⟨.running (.ensure request keys), ?_, fun key => ?_, fun key => rfl⟩
    · exact {
        numbered := rfl
        requests := rfl
        nodes := rfl
        nodeRequests := rfl
        records := fun _ _ member => mem_append_left _ member
        events := rfl
        failures := fun _ held => held
        reports := fun id => rfl
        own := by
          have only : (state.threads ++ [Thread.ensure request keys]).filter
              (serves request.id) = [.ensure request keys] := by
            rw [filter_append, noThread]
            simp [serves]
          exact Contents.ext only noTask noNode unconsumed
        others := fun id unlike => by
          have no : ¬ state.requests.length = id := Ne.symm unlike
          simp [contents, State.go, serves, no]
        fits := .ensure keys empty ⟨[], rfl, by simp⟩
        first := by simp }
    · simp [State.go, creates]

theorem Invariant.requested (good : Invariant state ghost) (keys : List Key) (hasFail : Bool) :
    ∃ ghost, Invariant (state.consumeAfterKeysReady keys (.outside hasFail)) ghost := by
  obtain ⟨place, issues, creating, starting⟩ :=
    consumeAfterKeysReady_issues good.progress keys (.outside hasFail)
  have flags := SameFlags.refl issues.nodes
  have unseen : ghost.phase state.requests.length ≠ .consumed := by
    rw [(good.progress.absent state.requests.length le_rfl).1]
    simp
  have consumed := consumed_update issues.first.1 unseen
  refine ⟨⟨_, ghost.report, ghost.creation⟩, good.nodes.same issues.nodes,
    good.progress.issue issues, ?_⟩
  exact {
    creations := fun key => by
      rw [← good.created.creations]
      simp only [AsyncMap.creations, creating, starting, issues.events]
    idle := by simpa only [Marked, issues.nodes] using good.created.idle
    ready := by simpa only [flags.ready] using good.created.ready
    settled := by simpa only [flags.ready, flags.failed_iff] using good.created.settled
    asking := fun key id asking => by
      obtain ⟨other, made, same, asks, unconsumed⟩ := good.created.asking key id asking
      exact ⟨other, issues.requests ▸ mem_append_left _ made, same, asks,
        mt (consumed id).mp unconsumed⟩
    asks := fun other made key asks unconsumed => by
      rw [issues.requests] at made
      cases mem_append.mp made with
      | inl inside =>
        exact good.created.asks other inside key asks (mt (consumed other.id).mpr unconsumed)
      | inr new =>
        rw [mem_singleton.mp new] at asks
        cases asks }

theorem Invariant.subcaller (good : Invariant state ghost) {key : Key} {loggers keys : List Key}
    {continuation : List Value → Behaviour Key Value} {before after : List (Thread Key Value)}
    (threads : state.threads = before ++ .perform key loggers (.subcaller keys continuation) :: after) :
    ∃ ghost, Invariant ({ state with threads := before ++ after }.advance
      (.perform key loggers (.subcaller keys continuation))) ghost := by
  have performing : ghost.creation key = .performing loggers (.subcaller keys continuation) :=
    good.created.perform (threads ▸ by simp)
  have progress := good.progress.stop threads
  obtain ⟨place, issues, creating, starting⟩ :=
    consumeAfterKeysReady_issues progress keys (.creator key loggers continuation)
  have flags := SameFlags.refl issues.nodes
  have unseen : ghost.phase state.requests.length ≠ .consumed := by
    rw [(good.progress.absent state.requests.length le_rfl).1]
    simp
  have consumed := consumed_update issues.first.1 unseen
  obtain ⟨marked, unready⟩ := good.created.performing performing
  have held := good.created.creations key
  rw [performing] at held
  simp only [AsyncMap.creations, Creation.contents, Creations.mk.injEq] at held
  have created : Created ({ state with threads := before ++ after }.consumeAfterKeysReady keys
      (.creator key loggers continuation)) (update ghost.phase state.requests.length place)
      (update ghost.creation key (.asking state.requests.length)) := {
    creations := fun other => by
      by_cases same : other = key
      · rw [same, update_self]
        refine Creations.ext ?_ ?_ ?_
        · simp only [AsyncMap.creations, creating]
          exact good.created.alone threads (by simp [creates])
        · simp only [AsyncMap.creations, starting]
          exact held.2.1
        · simp only [AsyncMap.creations, issues.events]
          exact held.2.2
      · have no : ¬ key = other := Ne.symm same
        rw [update_of_ne same, ← good.created.creations]
        simp only [AsyncMap.creations, creating, starting, issues.events, threads,
          filter_append, filter_cons, creates, no, decide_false, false_eq_true,
          if_false]
    idle := fun other => by
      by_cases same : other = key
      · rw [same, update_self]
        exact iff_of_false (by simp) (not_not.mpr (flags.marked key marked))
      · rw [update_of_ne same, good.created.idle]
        simp only [Marked, issues.nodes]
    ready := fun other isReady => by
      have before : Ready state other := (flags.ready other).mp isReady
      by_cases same : other = key
      · exact absurd (same ▸ before) unready
      · rw [update_of_ne same]
        exact good.created.ready other before
    settled := fun other => by
      by_cases same : other = key
      · rw [same, update_self]
        intro done
        cases done
      · rw [update_of_ne same]
        intro done
        exact (good.created.settled other done).imp (flags.ready other).mpr
          (flags.failed_iff other).mpr
    asking := fun other id => by
      by_cases same : other = key
      · rw [same, update_self]
        intro asking
        cases asking
        refine ⟨_, issues.requests ▸ mem_append_right _ (mem_singleton.mpr rfl), rfl, rfl, ?_⟩
        rw [update_self]
        exact issues.first.1
      · rw [update_of_ne same]
        intro asking
        obtain ⟨request, made, same, asks, unconsumed⟩ := good.created.asking other id asking
        exact ⟨request, issues.requests ▸ mem_append_left _ made, same, asks,
          mt (consumed id).mp unconsumed⟩
    asks := fun other made caller asks unconsumed => by
      rw [issues.requests] at made
      cases mem_append.mp made with
      | inl inside =>
        have asking := good.created.asks other inside caller asks
          (mt (consumed other.id).mpr unconsumed)
        have unlike : caller ≠ key := by
          intro same
          rw [same, performing] at asking
          cases asking
        rw [update_of_ne unlike, asking]
      | inr new =>
        rw [mem_singleton.mp new] at asks ⊢
        cases asks
        rw [update_self] }
  exact ⟨⟨_, ghost.report, _⟩, good.nodes.same issues.nodes, progress.issue issues, created⟩

end Requests

section Tasks

variable [DecidableEq Key] {state : State Key Value} {ghost : Ghost Key Value}
  {before after : List (Task Key Value)} {task : Task Key Value} {request : Request Key Value}
  {key : Key}

variable {phase : Nat → Phase Key Value} {report : Nat → Report Key}

theorem Progress.alone_task
    (good : Progress state phase report) (queue : state.queue = before ++ task :: after) {id : Nat}
    (own : advances id task = true) : (before ++ after).filter (advances id) = [] := by
  have place := good.task (queue ▸ by simp) own
  have held := congrArg Contents.queue (good.contents id)
  simp only [AsyncMap.contents, place, Phase.contents, queue, filter_append,
    filter_cons, own, if_true] at held
  have length := congrArg List.length held
  simp only [length_append, length_cons, length_nil] at length
  rw [filter_append, List.append_eq_nil_iff]
  exact ⟨List.eq_nil_of_length_eq_zero (by omega), List.eq_nil_of_length_eq_zero (by omega)⟩

theorem Progress.free_task
    (good : Progress state phase report) (queue : state.queue = before ++ task :: after) {id : Nat}
    (own : advances id task = true) :
    state.threads.filter (serves id) = [] ∧
      (∀ key, (state.nodes key).awaitingTasks.filter (advances id) = []) ∧
      state.events.countP (isConsumed id) = 0 := by
  have held := good.contents id
  rw [good.task (queue ▸ by simp) own] at held
  simp only [AsyncMap.contents, Phase.contents, Contents.mk.injEq] at held
  exact ⟨held.1, fun key => congrFun held.2.2.1 key, held.2.2.2⟩

theorem Progress.takes
    (good : Progress state phase report) (request : Request Key Value)
    (queue : state.queue = before ++ task :: after) (own : advances request.id task = true) :
    ∃ made ∈ state.requests, ∃ there, made.id = request.id ∧ report request.id = there ∧
      Fits state made (.queued task) there := by
  have place := good.task (queue ▸ by simp) own
  obtain ⟨made, listed, same⟩ := good.made (.inl (by rw [place]; simp))
  have fits := good.fits made listed
  rw [same, place] at fits
  exact ⟨made, listed, _, same, rfl, fits⟩

theorem Invariant.process (good : Invariant state ghost) {loggers : List Key}
    (queue : state.queue = before ++ .process key loggers :: after)
    (behaviour : Behaviour Key Value) :
    ∃ ghost, Invariant (({ state with queue := before ++ after }.log (.created key)).go
      (.perform key loggers behaviour)) ghost := by
  have queued : ghost.creation key = .queued loggers := good.created.process (queue ▸ by simp)
  have held := good.created.creations key
  rw [queued] at held
  simp only [AsyncMap.creations, Creation.contents, Creations.mk.injEq] at held
  set next := ({ state with queue := before ++ after }.log (.created key)).go
    (.perform key loggers behaviour) with step
  have flags : SameFlags state next := .refl rfl
  have marked : Marked state key := by
    by_contra unmarked
    rw [(good.created.idle key).mpr unmarked] at queued
    cases queued
  have unready : ¬ Ready state key := by
    intro ready
    rw [good.created.ready key ready] at queued
    cases queued
  refine ⟨⟨ghost.phase, ghost.report,
    update ghost.creation key (.performing loggers behaviour)⟩, good.nodes.same rfl, ?_, ?_⟩
  · exact {
      contents := fun id => by
        rw [← good.progress.contents id]
        simp [AsyncMap.contents, step, State.go, State.log, serves, queue, advances, isConsumed]
      reported := fun id => by
        rw [← good.progress.reported id]
        simp [AsyncMap.reported, step, State.go, State.log, queue, reports, isFailed]
      fits := fun request made => (good.progress.fits request made).same flags
      absent := good.progress.absent
      numbered := good.progress.numbered
      failures other held := good.progress.failures other (by
        simpa [Holds, queue, step, State.go, State.log] using held)
      recorded := fun request made caller key task asks waits =>
        (good.progress.recorded request made caller key task asks waits).imp_right
          fun member => mem_append_left _ member
      values := fun request values event => by
        simp only [step, State.go, State.log, mem_append, mem_singleton, reduceCtorEq,
          or_false] at event
        exact good.progress.values request values event
      settled := good.progress.settled }
  · refine good.created.move rfl (by simp [queued]) (by simp) (by simp) ?_ ?_ marked
      (fun _ _ => Iff.rfl) (fun _ _ => Iff.rfl) (fun _ _ => id)
      (fun ready => absurd ready unready) (by simp) (fun _ => Iff.rfl)
    · refine Creations.ext ?_ ?_ ?_
      · have only : (state.threads ++ [Thread.perform key loggers behaviour]).filter (creates key) =
            [.perform key loggers behaviour] := by
          rw [filter_append, held.1]
          simp [creates]
        exact only
      · have one := held.2.1
        rw [queue] at one
        have length := congrArg List.length one
        simp only [filter_append, filter_cons, starts, decide_true, if_true,
          length_append, length_cons, length_nil] at length
        have none : (before ++ after).filter (starts key) = [] := by
          rw [filter_append, List.append_eq_nil_iff]
          exact ⟨List.eq_nil_of_length_eq_zero (by omega), List.eq_nil_of_length_eq_zero (by omega)⟩
        exact none
      · have once : (state.events ++ [Event.created key]).countP (isCreated key) = 1 := by
          rw [List.countP_append, held.2.2]
          simp [isCreated]
        exact once
    · intro other unlike
      have no : ¬ key = other := Ne.symm unlike
      simp [AsyncMap.creations, step, State.go, State.log, creates, starts, isCreated, queue, no]

theorem Invariant.whenAllReady_nil (good : Invariant state ghost)
    (queue : state.queue = before ++ .whenAllReady request [] :: after) :
    ∃ ghost, Invariant ({ state with queue := before ++ after }.queueTasks [.consume request])
      ghost := by
  have own : advances request.id (.whenAllReady request []) = true := by simp [advances]
  obtain ⟨made, listed, there, -, place, fits⟩ := good.progress.takes request queue own
  have alone := good.progress.alone_task queue own
  obtain ⟨idle, awaiting, consumed⟩ := good.progress.free_task queue own
  have phase := good.progress.task (queue ▸ by simp) own
  set next := { state with queue := before ++ after }.queueTasks [.consume request] with step
  have flags : SameFlags state next := .refl rfl
  cases fits with
  | whenAllReady _ reached =>
    obtain ⟨done, keys, ready⟩ := reached.passed
    rw [append_nil] at keys
    have quiet : ∀ id, AsyncMap.reported next id = AsyncMap.reported state id := fun id => by
      simp [AsyncMap.reported, step, State.queueTasks, queue, reports]
    have moves : Moves state next request (.queued (.consume request)) .none := {
      made := listed
      requests := rfl
      flags := flags
      own := by
        have only : (before ++ after ++ [Task.consume request]).filter (advances request.id) =
            [.consume request] := by
          rw [filter_append, alone]
          simp [advances]
        exact Contents.ext idle only (funext awaiting) consumed
      others id unlike := by
        simp [AsyncMap.contents, step, State.queueTasks, queue, advances, unlike.symm]
      ownReport := good.progress.kept quiet place
      otherReports id _ := quiet id
      fits := (Fits.consume (keys ▸ ready)).same flags
      failures other held := .inl (by
        simpa [Holds, queue, step, State.queueTasks] using held)
      recorded _ _ _ _ waits := by cases waits
      values _ _ := .inl
      settled called := by cases called
      records := fun _ _ => id }
    refine good.move moves (good.nodes.same rfl) (fun _ => id) (by simp [phase]) (by simp) ?_
    intro other
    simp [AsyncMap.creations, step, State.queueTasks, queue, starts]

theorem Invariant.whenAllReady_cons (good : Invariant state ghost) {rest : List Key}
    (queue : state.queue = before ++ .whenAllReady request (key :: rest) :: after) :
    ∃ ghost, Invariant ({ state with queue := before ++ after }.go
      (.onFailure request (key :: rest))) ghost := by
  have own : advances request.id (.whenAllReady request (key :: rest)) = true := by simp [advances]
  obtain ⟨made, listed, there, -, place, fits⟩ := good.progress.takes request queue own
  have alone := good.progress.alone_task queue own
  obtain ⟨idle, awaiting, consumed⟩ := good.progress.free_task queue own
  have phase := good.progress.task (queue ▸ by simp) own
  set next := { state with queue := before ++ after }.go (.onFailure request (key :: rest)) with step
  have flags : SameFlags state next := .refl rfl
  cases fits with
  | whenAllReady _ reached =>
    have quiet : ∀ id, AsyncMap.reported next id = AsyncMap.reported state id := fun id => by
      simp [AsyncMap.reported, step, State.go, queue, reports]
    have moves : Moves state next request (.running (.onFailure request (key :: rest))) .none := {
      made := listed
      requests := rfl
      flags := flags
      own := by
        have only : (state.threads ++ [Thread.onFailure request (key :: rest)]).filter
            (serves request.id) = [.onFailure request (key :: rest)] := by
          rw [filter_append, idle]
          simp [serves]
        exact Contents.ext only alone (funext awaiting) consumed
      others id unlike := by
        simp [AsyncMap.contents, step, State.go, queue, serves, advances, unlike.symm]
      ownReport := good.progress.kept quiet place
      otherReports id _ := quiet id
      fits := (Fits.onFailure key rest reached).same flags
      failures other held := .inl (by simpa [Holds, queue, step, State.go] using held)
      recorded _ _ _ _ waits := by cases waits
      values _ _ := .inl
      settled called := by cases called
      records := fun _ _ known => known.imp_right fun member => mem_append_left _ member }
    refine good.move moves (good.nodes.same rfl) (fun _ => id) (by simp [phase]) (by simp) ?_
    intro other
    simp [AsyncMap.creations, step, State.go, queue, creates, starts]

omit [DecidableEq Key] in
theorem values_of_ready {keys : List Key} (ready : ∀ key ∈ keys, Ready state key) :
    ∃ values, state.values keys = some values := by
  unfold State.values
  induction keys with
  | nil => exact ⟨[], rfl⟩
  | cons key rest step =>
    obtain ⟨value, first⟩ := isSome_iff_exists.mp (ready key mem_cons_self)
    obtain ⟨values, others⟩ := step (forall_mem_cons.mp ready).2
    exact ⟨value :: values, by simp [mapM_cons, first, others]⟩

theorem Progress.consume
    (good : Progress state phase report) (queue : state.queue = before ++ .consume request :: after)
    {values : List Value} (read : state.values request.keys = some values)
    (threads : List (Thread Key Value))
    (extra : ∀ id, threads.filter (serves id) = []) :
    Progress { state with
        queue := before ++ after
        events := state.events ++ [.consumed request values]
        threads := state.threads ++ threads }
      (update phase request.id .consumed) (update report request.id .none) ∧
      request ∈ state.requests ∧ phase request.id = .queued (.consume request) := by
  have own : advances request.id (.consume request) = true := by simp [advances]
  obtain ⟨made, listed, there, -, place, fits⟩ := good.takes request queue own
  have alone := good.alone_task queue own
  obtain ⟨idle, awaiting, consumed⟩ := good.free_task queue own
  set next : State Key Value := { state with
    queue := before ++ after
    events := state.events ++ [.consumed request values]
    threads := state.threads ++ threads } with step
  have flags : SameFlags state next := .refl rfl
  cases fits with
  | consume ready =>
    have quiet : ∀ id, AsyncMap.reported next id = AsyncMap.reported state id := fun id => by
      simp [AsyncMap.reported, step, queue, reports, isFailed]
    refine ⟨good.move ?_, listed, good.task (queue ▸ by simp) own⟩
    exact {
      made := listed
      requests := rfl
      flags := flags
      own := by
        have none : (state.threads ++ threads).filter (serves request.id) = [] := by
          rw [filter_append, idle, extra]
          rfl
        have once : (state.events ++ [Event.consumed request values]).countP
            (isConsumed request.id) = 1 := by
          rw [List.countP_append, consumed]
          simp [isConsumed]
        exact Contents.ext none alone (funext awaiting) once
      others id unlike := by
        have no : ¬ request.id = id := Ne.symm unlike
        refine Contents.ext ?_ ?_ rfl ?_
        · simp only [AsyncMap.contents, step, filter_append, extra, append_nil]
        · simp [AsyncMap.contents, step, queue, advances, no]
        · simp [AsyncMap.contents, step, isConsumed, no]
      ownReport := good.kept quiet place
      otherReports id _ := quiet id
      fits := (Fits.consumed ready).same flags
      failures other held := .inl (by simpa [Holds, queue, step] using held)
      recorded := by
        intro _ _ _ _ waits
        cases waits
      records := fun _ _ known => known.imp_right fun member => mem_append_left _ member
      values := by
        intro other values' event
        simp only [step, mem_append, mem_singleton, Event.consumed.injEq] at event
        cases event with
        | inl before => exact .inl before
        | inr now =>
          obtain ⟨rfl, rfl⟩ := now
          exact .inr read }

theorem Invariant.consume (good : Invariant state ghost)
    (queue : state.queue = before ++ .consume request :: after)
    (creator : Key → Behaviour Key Value) :
    ∃ ghost, Invariant ({ state with queue := before ++ after }.run creator (.consume request))
      ghost := by
  have own : advances request.id (.consume request) = true := by simp [advances]
  obtain ⟨made, listed, there, -, -, fits⟩ := good.progress.takes request queue own
  cases fits with
  | consume ready =>
    obtain ⟨values, read⟩ := values_of_ready ready
    have read' : ({ state with queue := before ++ after } : State Key Value).values request.keys =
        some values := read
    simp only [State.run, read']
    have starting : ∀ key, (before ++ after).filter (starts key) =
        state.queue.filter (starts key) := fun key => by simp [queue, starts]
    have creating : ∀ key, (state.events ++ [Event.consumed request values]).countP
        (isCreated key) = state.events.countP (isCreated key) := fun key => by simp [isCreated]
    cases caller : request.consumer with
    | outside hasFail =>
      have from' : request.consumerId = none := by simp [Request.consumerId, caller]
      obtain ⟨progress, -, -⟩ := good.progress.consume queue read [] (fun _ => rfl)
      rw [append_nil] at progress
      have created : Created { state with
            queue := before ++ after
            events := state.events ++ [.consumed request values] }
          (update ghost.phase request.id .consumed) ghost.creation := {
        creations := fun key => by
          rw [← good.created.creations]
          exact Creations.ext rfl (starting key) (creating key)
        idle := good.created.idle
        ready := good.created.ready
        settled := good.created.settled
        asking := fun key id asking => by
          obtain ⟨other, made, same, asks, unconsumed⟩ := good.created.asking key id asking
          have unlike : id ≠ request.id := by
            intro here
            rw [good.progress.unique made listed (same.trans here), from'] at asks
            cases asks
          exact ⟨other, made, same, asks, by rwa [update_of_ne unlike]⟩
        asks := fun other made key asks unconsumed => by
          have unlike : other.id ≠ request.id := by
            intro here
            rw [here, update_self] at unconsumed
            exact unconsumed rfl
          rw [update_of_ne unlike] at unconsumed
          exact good.created.asks other made key asks unconsumed }
      exact ⟨⟨_, _, _⟩, good.nodes.same rfl, progress, created⟩
    | creator key loggers continuation =>
      have asks : request.consumerId = some key := by simp [Request.consumerId, caller]
      obtain ⟨progress, -, phase⟩ := good.progress.consume queue read
        [.perform key loggers (continuation values)] (fun _ => by simp [serves])
      have asking : ghost.creation key = .asking request.id :=
        good.created.asks request listed key asks (by rw [phase]; simp)
      have held := good.created.creations key
      rw [asking] at held
      simp only [AsyncMap.creations, Creation.contents, Creations.mk.injEq] at held
      have unready : ¬ Ready state key := by
        intro isReady
        rw [good.created.ready key isReady] at asking
        cases asking
      have marked : Marked state key := by
        by_contra unmarked
        rw [(good.created.idle key).mpr unmarked] at asking
        cases asking
      have created : Created { state with
            queue := before ++ after
            events := state.events ++ [.consumed request values]
            threads := state.threads ++ [.perform key loggers (continuation values)] }
          (update ghost.phase request.id .consumed)
          (update ghost.creation key (.performing loggers (continuation values))) := {
        creations := fun other => by
          by_cases same : other = key
          · rw [same, update_self]
            have only : (state.threads ++ [Thread.perform key loggers (continuation values)]).filter
                (creates key) = [.perform key loggers (continuation values)] := by
              rw [filter_append, held.1]
              simp [creates]
            exact Creations.ext only ((starting key).trans held.2.1)
              ((creating key).trans held.2.2)
          · have no : ¬ key = other := Ne.symm same
            rw [update_of_ne same, ← good.created.creations]
            have same' : (state.threads ++
                [Thread.perform key loggers (continuation values)]).filter (creates other) =
                state.threads.filter (creates other) := by
              simp [creates, no]
            exact Creations.ext same' (starting other) (creating other)
        idle := fun other => by
          by_cases same : other = key
          · rw [same, update_self]
            exact iff_of_false (by simp) (not_not.mpr marked)
          · rw [update_of_ne same]
            exact good.created.idle other
        ready := fun other isReady => by
          by_cases same : other = key
          · exact absurd (same ▸ isReady) unready
          · rw [update_of_ne same]
            exact good.created.ready other isReady
        settled := fun other done => by
          by_cases same : other = key
          · rw [same, update_self] at done
            cases done
          · rw [update_of_ne same] at done
            exact good.created.settled other done
        asking := fun other id asking' => by
          by_cases same : other = key
          · rw [same, update_self] at asking'
            cases asking'
          · rw [update_of_ne same] at asking'
            obtain ⟨found, made, named, asks', unconsumed⟩ := good.created.asking other id asking'
            have unlike : id ≠ request.id := by
              intro here
              rw [good.progress.unique made listed (named.trans here), asks] at asks'
              exact same (some.inj asks').symm
            exact ⟨found, made, named, asks', by rwa [update_of_ne unlike]⟩
        asks := fun other made caller' asks' unconsumed => by
          have unlike : other.id ≠ request.id := by
            intro here
            rw [here, update_self] at unconsumed
            exact unconsumed rfl
          rw [update_of_ne unlike] at unconsumed
          have asking' := good.created.asks other made caller' asks' unconsumed
          have others : caller' ≠ key := by
            intro same
            rw [same, asking] at asking'
            exact unlike (Creation.asking.inj asking').symm
          rw [update_of_ne others, asking'] }
      exact ⟨⟨_, _, _⟩, good.nodes.same rfl, progress, created⟩

theorem Invariant.called (good : Invariant state ghost)
    (queue : state.queue = before ++ .fail request :: after)
    (settled : ∀ caller, request.consumerId = some caller →
      Ready state caller ∨ Failed state caller) :
    ∃ ghost, Invariant { state with
      queue := before ++ after
      events := state.events ++ [.failed request] } ghost := by
  have member : .fail request ∈ state.queue := queue ▸ by simp
  have made := good.progress.failures request (.inl member)
  have queued := good.progress.failing member
  have held := good.progress.reported request.id
  rw [queued] at held
  simp only [AsyncMap.reported, Report.contents, Reports.mk.injEq, queue, List.countP_append,
    List.countP_cons, reports, decide_true, if_true] at held
  obtain ⟨once, unregistered, uncalled⟩ := held
  set next : State Key Value := { state with
    queue := before ++ after
    events := state.events ++ [.failed request] } with step
  have flags : SameFlags state next := .refl rfl
  have moves : Moves state next request (ghost.phase request.id) .called := {
    made := made
    requests := rfl
    flags := flags
    own := by
      rw [← good.progress.contents]
      simp [AsyncMap.contents, step, queue, advances, isConsumed]
    others id _ := by
      simp [AsyncMap.contents, step, queue, advances, isConsumed]
    ownReport := by
      have none : (before ++ after).countP (reports request.id) = 0 := by
        rw [List.countP_append]
        omega
      have again : (state.events ++ [Event.failed request]).countP (isFailed request.id) = 1 := by
        rw [List.countP_append, uncalled]
        simp [isFailed]
      exact Reports.ext none unregistered again
    otherReports := by
      intro id unlike
      simp [AsyncMap.reported, step, queue, reports, isFailed, unlike.symm]
    fits := by
      have fits := (good.progress.fits request made).same flags
      rw [queued] at fits
      generalize ghost.phase request.id = place at fits
      have called : ∀ key, Registered next request key .queued →
          Registered next request key .called := by
        intro key registered
        unfold Registered at registered ⊢
        split
        · next hasFail =>
          rw [if_pos hasFail] at registered
          rcases registered with ⟨-, wrong⟩ | ⟨-, -, wrong⟩ | ⟨failed, -⟩
          · cases wrong
          · cases wrong
          · exact .inr (.inr ⟨failed, .inr rfl⟩)
        · next hasFail =>
          rw [if_neg hasFail] at registered
          cases registered
      cases fits with
      | await key rest reached _ registered => exact .await key rest reached _ (called key registered)
      | awaitLocked key rest reached _ registered =>
        exact .awaitLocked key rest reached _ (called key registered)
      | awaiting key rest reached unready unfailed _ registered =>
        exact .awaiting key rest reached unready unfailed _ (called key registered)
      | dropped key requested failed _ registered =>
        exact .dropped key requested failed _ (called key registered)
    failures other held := .inl (by
      simp only [Holds, step, mem_append] at held
      simp only [Holds, queue, mem_append, mem_cons]
      tauto)
    recorded := good.progress.recorded request made
    records := fun _ _ => id
    values := by
      intro other values event
      simp only [step, mem_append, mem_singleton, reduceCtorEq, or_false] at event
      exact .inl event
    settled := fun _ => settled }
  have progress := good.progress.move moves
  rw [update_eq_self] at progress
  refine ⟨⟨ghost.phase, update ghost.report request.id .called, ghost.creation⟩,
    good.nodes.same rfl, progress, ?_⟩
  refine good.created.same rfl flags (fun _ marked => marked) ?_ fun _ => Iff.rfl
  intro other
  simp [AsyncMap.creations, step, queue, starts, isCreated]

theorem Invariant.fail (good : Invariant state ghost)
    (queue : state.queue = before ++ .fail request :: after)
    (creator : Key → Behaviour Key Value) :
    ∃ ghost, Invariant ({ state with queue := before ++ after }.run creator (.fail request))
      ghost := by
  match caller : request.consumer with
  | .outside hasFail =>
    have called := good.called queue (by simp [Request.consumerId, caller])
    simp only [State.run, caller]
    exact called
  | .creator key loggers continuation =>
    obtain ⟨later, good', -, -, settled⟩ := good.failNode key
    have queue' : (state.failNode key).queue =
        before ++ .fail request :: (after ++ (state.nodes key).fail.2) := by
      simp [State.failNode, State.queueTasks, State.setNode, queue]
    have called := good'.called queue' (by
      intro other asks
      simp only [Request.consumerId, caller, some.injEq] at asks
      exact asks ▸ settled)
    simp only [State.run, caller]
    have same : ({ state with queue := before ++ after }.log (.failed request)).failNode key =
        { state.failNode key with
          queue := before ++ (after ++ (state.nodes key).fail.2)
          events := (state.failNode key).events ++ [.failed request] } := by
      simp [State.failNode, State.queueTasks, State.setNode, State.log]
    rw [same]
    exact called

end Tasks

end Jst.Verif.AsyncMap
