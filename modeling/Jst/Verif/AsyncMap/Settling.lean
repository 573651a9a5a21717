import Jst.Verif.AsyncMap.Registering
/-!
# Nodes that are settled

When a node gets its value, the requests that await it go on; when it fails, they are dropped and
their failure functions are queued. A creator ends with one of the two.
-/
namespace Jst.Verif.AsyncMap

open Multithreading

variable {Key Value : Type}

section Settling

variable [DecidableEq Key] {state next : State Key Value} {ghost : Ghost Key Value}
  {request : Request Key Value} {key : Key}

/-- The requests that await a node go on when it is settled. -/
def Phase.settle (place : Phase Key Value) (key : Key)
    (onward : Task Key Value → Phase Key Value) : Phase Key Value :=
  match place with
  | .awaiting other task => if other = key then onward task else .awaiting other task
  | place => place

/-- The failure functions that a node holds leave it when it is settled. -/
def Report.settle (there : Report Key) (key : Key) (onward : Report Key) : Report Key :=
  match there with
  | .registered other => if other = key then onward else .registered other
  | there => there

/-- A node is settled: flags are only raised. -/
structure Raises (state next : State Key Value) : Prop where
  marked : ∀ key, Marked next key ↔ Marked state key
  value : ∀ key value, (state.nodes key).value = some value → (next.nodes key).value = some value
  failed : ∀ key, Failed state key → Failed next key

section
omit [DecidableEq Key]

theorem Raises.ready (raises : Raises state next) (ready : Ready state key) : Ready next key := by
  obtain ⟨value, set⟩ := isSome_iff_exists.mp ready
  exact isSome_iff_exists.mpr ⟨value, raises.value key value set⟩

theorem Raises.values (raises : Raises state next) {keys : List Key} {values : List Value}
    (all : state.values keys = some values) : next.values keys = some values := by
  unfold State.values at all ⊢
  induction keys generalizing values with
  | nil => exact all
  | cons key rest step =>
    rw [mapM_cons] at all ⊢
    match first : (state.nodes key).value, others : rest.mapM fun key => (state.nodes key).value with
    | none, _ => simp [first] at all
    | some _, none => simp [first, others] at all
    | some value, some values' =>
      rw [raises.value key value first, step others]
      simpa [first, others] using all

end

variable {forward : Task Key Value → Phase Key Value}

theorem Fits.settle {place : Phase Key Value} {there onward : Report Key}
    (raises : Raises state next) (registered : ∀ other there, Registered state request other there →
      Registered next request other (there.settle key onward))
    (awaiting : ∀ other rest, Reached next request (other :: rest) → ¬ Ready state other →
      ¬ Failed state other → Registered state request other there →
      Fits next request ((Phase.awaiting other (.whenAllReady request rest)).settle key forward)
        (there.settle key onward)) (fits : Fits state request place there) :
    Fits next request (place.settle key forward) (there.settle key onward) := by
  have reaches : ∀ rest, Reached state request rest → Reached next request rest := by
    intro rest reached
    obtain ⟨done, keys, ready⟩ := reached.passed
    exact ⟨fun key member => (raises.marked key).mpr (reached.marked key member), done, keys,
      fun key member => raises.ready (ready key member)⟩
  cases fits with
  | ensure rest some' passed =>
    obtain ⟨done, keys, marked⟩ := passed
    exact .ensure rest some'
      ⟨done, keys, fun key member => (raises.marked key).mpr (marked key member)⟩
  | enqueue other rest isMarked passed =>
    obtain ⟨done, keys, marked⟩ := passed
    exact .enqueue other rest ((raises.marked other).mpr isMarked)
      ⟨done, keys, fun key member => (raises.marked key).mpr (marked key member)⟩
  | onFailure other rest reached => exact .onFailure other rest (reaches _ reached)
  | onFailureLocked other rest reached hasFail =>
    exact .onFailureLocked other rest (reaches _ reached) hasFail
  | await other rest reached _ reg => exact .await other rest (reaches _ reached) _ (registered _ _ reg)
  | awaitLocked other rest reached _ reg =>
    exact .awaitLocked other rest (reaches _ reached) _ (registered _ _ reg)
  | awaiting other rest reached unready unfailed _ reg =>
    exact awaiting other rest (reaches _ reached) unready unfailed reg
  | whenAllReady rest reached => exact .whenAllReady rest (reaches _ reached)
  | consume ready => exact .consume fun key member => raises.ready (ready key member)
  | consumed ready => exact .consumed fun key member => raises.ready (ready key member)
  | dropped other requested failed _ reg =>
    exact .dropped other requested (raises.failed other failed) _ (registered _ _ reg)

/-- A node is settled, and some of its tasks are queued. -/
structure Settles (state next : State Key Value) (key : Key) (tasks : List (Task Key Value)) :
    Prop where
  raises : Raises state next
  open' : ¬ Ready state key ∧ ¬ Failed state key
  cleared : (next.nodes key).awaitingTasks = [] ∧ (next.nodes key).failureTasks = []
  others : ∀ other, other ≠ key → next.nodes other = state.nodes other
  queue : next.queue = state.queue ++ tasks
  rest : next.threads = state.threads ∧ next.requests = state.requests ∧
    next.nodeRequests = state.nodeRequests ∧ next.events = state.events

theorem Progress.settle {phase : Nat → Phase Key Value} {report : Nat → Report Key}
    {tasks : List (Task Key Value)} {onward : Report Key} (good : Progress state phase report)
    (settles : Settles state next key tasks)
    (contents : ∀ id, AsyncMap.contents next id = ((phase id).settle key forward).contents)
    (reported : ∀ id, AsyncMap.reported next id = ((report id).settle key onward).contents)
    (fits : ∀ request ∈ state.requests, Fits next request ((phase request.id).settle key forward)
      ((report request.id).settle key onward))
    (failures : ∀ request, .fail request ∈ tasks → Holds state request)
    (stops : ∀ task other later, forward task ≠ .awaiting other later)
    (uncalled : onward ≠ .called) : Progress next (fun id => (phase id).settle key forward)
      (fun id => (report id).settle key onward) where
  contents := contents
  reported := reported
  fits := by
    rw [settles.rest.2.1]
    exact fits
  absent id outside := by
    rw [settles.rest.2.1] at outside
    obtain ⟨noPhase, noReport⟩ := good.absent id outside
    simp [noPhase, noReport, Phase.settle, Report.settle]
  numbered := by
    rw [settles.rest.2.1]
    exact good.numbered
  failures request held := by
    rw [settles.rest.2.1]
    refine good.failures request ?_
    cases held with
    | inl queued =>
      rw [settles.queue, mem_append] at queued
      exact queued.elim .inl (failures request)
    | inr stored =>
      obtain ⟨other, member⟩ := stored
      by_cases same : other = key
      · rw [same, settles.cleared.2] at member
        cases member
      · rw [settles.others other same] at member
        exact .inr ⟨other, member⟩
  recorded request made caller other task asks waits := by
    rw [settles.rest.2.1] at made
    rw [settles.rest.2.2.1, settles.rest.1]
    refine good.recorded request made caller other task asks ?_
    match at_ : phase request.id with
    | .awaiting node held =>
      simp only [at_, Phase.settle] at waits
      split at waits
      · exact absurd waits (stops _ _ _)
      · exact waits
    | .absent | .running _ | .queued _ | .consumed | .dropped _ =>
      simp [at_, Phase.settle] at waits
  values other values event := by
    rw [settles.rest.2.2.2] at event
    exact settles.raises.values (good.values other values event)
  settled request made caller asks called := by
    rw [settles.rest.2.1] at made
    have before : report request.id = .called := by
      match at_ : report request.id with
      | .called => rfl
      | .registered node =>
        simp only [at_, Report.settle] at called
        split at called
        · exact absurd called uncalled
        · exact called
      | .none | .queued => simp [at_, Report.settle] at called
    exact (good.settled request made caller asks before).imp settles.raises.ready
      (settles.raises.failed caller)

end Settling

section Nodes

variable [DecidableEq Key] {state next : State Key Value} {ghost : Ghost Key Value}
  {request : Request Key Value} {key : Key}

variable {tasks : List (Task Key Value)}

theorem Settles.contents (settles : Settles state next key tasks)
    (id : Nat) : AsyncMap.contents next id = ⟨(AsyncMap.contents state id).threads,
        (AsyncMap.contents state id).queue ++ tasks.filter (advances id),
        fun other => if other = key then [] else (AsyncMap.contents state id).awaiting other,
        (AsyncMap.contents state id).consumed⟩ := by
  refine Contents.ext ?_ ?_ (funext fun other => ?_) ?_
  · simp only [AsyncMap.contents, settles.rest.1]
  · simp only [AsyncMap.contents, settles.queue, filter_append]
  · simp only [AsyncMap.contents]
    by_cases same : other = key
    · rw [if_pos same, same, settles.cleared.1, List.filter_nil]
    · rw [if_neg same, settles.others other same]
  · simp only [AsyncMap.contents, settles.rest.2.2.2]

theorem Settles.reported (settles : Settles state next key tasks)
    (id : Nat) : AsyncMap.reported next id =
      ⟨(AsyncMap.reported state id).queue + tasks.countP (reports id),
        fun other => if other = key then 0 else (AsyncMap.reported state id).nodes other,
        (AsyncMap.reported state id).called⟩ := by
  refine Reports.ext ?_ (funext fun other => ?_) ?_
  · simp only [AsyncMap.reported, settles.queue, List.countP_append]
  · simp only [AsyncMap.reported]
    by_cases same : other = key
    · rw [if_pos same, same, settles.cleared.2, List.countP_nil, ite_self]
    · rw [if_neg same, settles.others other same]
  · simp only [AsyncMap.reported, settles.rest.2.2.2]

section
omit [DecidableEq Key]

theorem Nodes.filter_failureTasks (nodes : Nodes state) (key : Key) (id : Nat) :
    (state.nodes key).failureTasks.filter (advances id) = [] := by
  refine List.filter_eq_nil_iff.mpr fun task member => ?_
  obtain ⟨request, rfl⟩ := nodes.failureTasks key task member
  simp [advances]

theorem Nodes.countP_awaitingTasks (nodes : Nodes state) (key : Key) (id : Nat) :
    (state.nodes key).awaitingTasks.countP (reports id) = 0 := by
  refine List.countP_eq_zero.mpr fun task member => ?_
  obtain ⟨request, rest, rfl⟩ := nodes.awaitingTasks key task member
  simp [reports]

end

theorem Progress.fail {phase : Nat → Phase Key Value} {report : Nat → Report Key}
    (good : Progress state phase report) (nodes : Nodes state)
    (settles : Settles state next key (state.nodes key).failureTasks)
    (ready : ∀ other, Ready next other ↔ Ready state other)
    (failed : ∀ other, Failed next other ↔ other = key ∨ Failed state other) :
    Progress next (fun id => (phase id).settle key fun _ => .dropped key)
      (fun id => (report id).settle key .queued) := by
  have registered : ∀ request : Request Key Value, ∀ other there,
      Registered state request other there →
      Registered next request other (there.settle key .queued) := by
    intro request other there reg
    unfold Registered at reg ⊢
    split
    · next hasFail =>
      rw [if_pos hasFail] at reg
      rw [ready, failed]
      rcases reg with ⟨isReady, rfl⟩ | ⟨unready, unfailed, rfl⟩ | ⟨isFailed, rfl | rfl⟩
      · exact .inl ⟨isReady, rfl⟩
      · by_cases same : other = key
        · exact .inr (.inr ⟨.inl same, .inl (if_pos same)⟩)
        · exact .inr (.inl ⟨unready, by simp [same, unfailed], if_neg same⟩)
      · exact .inr (.inr ⟨.inr isFailed, .inl rfl⟩)
      · exact .inr (.inr ⟨.inr isFailed, .inr rfl⟩)
    · next hasFail =>
      rw [if_neg hasFail] at reg
      rw [reg]
      rfl
  refine good.settle settles ?_ ?_ ?_ (fun _ member => .inr ⟨key, member⟩) (by simp) (by simp)
  · intro id
    rw [settles.contents, good.contents, nodes.filter_failureTasks, append_nil]
    cases phase id with
    | awaiting other task =>
      simp only [Phase.settle]
      by_cases same : other = key
      · rw [if_pos same]
        refine Contents.ext rfl rfl (funext fun node => ?_) rfl
        by_cases here : node = key <;> simp [Phase.contents, here, same]
      · rw [if_neg same]
        refine Contents.ext rfl rfl (funext fun node => ?_) rfl
        by_cases here : node = key
        · simp [Phase.contents, here, Ne.symm same]
        · simp [here]
    | absent | running _ | queued _ | consumed | dropped _ =>
      simp [Phase.settle, Phase.contents]
  · intro id
    have held := good.reported id
    have here := congrFun (congrArg Reports.nodes held) key
    have count : (state.nodes key).failureTasks.countP (reports id) =
        (report id).contents.nodes key := (if_neg settles.open'.1).symm.trans here
    rw [settles.reported, held, count]
    cases report id with
    | registered other =>
      simp only [Report.settle, Report.contents]
      by_cases same : other = key
      · simp only [same, if_true]
        refine Reports.ext rfl (funext fun node => ?_) rfl
        by_cases here : node = key <;> simp [here]
      · simp only [same, Ne.symm same, if_false]
        refine Reports.ext rfl (funext fun node => ?_) rfl
        by_cases here : node = key
        · simp [here, Ne.symm same]
        · simp [here]
    | none | queued | called => simp [Report.settle, Report.contents]
  · intro request made
    refine Fits.settle settles.raises (registered request) ?_ (good.fits request made)
    intro other rest reached unready unfailed reg
    simp only [Phase.settle]
    by_cases same : other = key
    · rw [if_pos same]
      obtain ⟨done, keys, -⟩ := reached.passed
      exact .dropped key (by simp [keys, same]) ((failed key).mpr (.inl rfl)) _
        (same ▸ registered request other _ reg)
    · rw [if_neg same]
      exact .awaiting other rest reached (mt (ready other).mp unready)
        (by simp [failed, same, unfailed]) _ (registered request other _ reg)

theorem Progress.set {phase : Nat → Phase Key Value} {report : Nat → Report Key}
    (good : Progress state phase report) (nodes : Nodes state)
    (settles : Settles state next key (state.nodes key).awaitingTasks)
    (ready : ∀ other, Ready next other ↔ other = key ∨ Ready state other)
    (failed : ∀ other, Failed next other ↔ Failed state other) :
    Progress next (fun id => (phase id).settle key .queued)
      (fun id => (report id).settle key .none) := by
  have registered : ∀ request : Request Key Value, ∀ other there,
      Registered state request other there →
      Registered next request other (there.settle key .none) := by
    intro request other there reg
    unfold Registered at reg ⊢
    split
    · next hasFail =>
      rw [if_pos hasFail] at reg
      rw [ready, failed]
      rcases reg with ⟨isReady, rfl⟩ | ⟨unready, unfailed, rfl⟩ | ⟨isFailed, rfl | rfl⟩
      · exact .inl ⟨.inr isReady, rfl⟩
      · by_cases same : other = key
        · exact .inl ⟨.inl same, if_pos same⟩
        · exact .inr (.inl ⟨by simp [same, unready], unfailed, if_neg same⟩)
      · exact .inr (.inr ⟨isFailed, .inl rfl⟩)
      · exact .inr (.inr ⟨isFailed, .inr rfl⟩)
    · next hasFail =>
      rw [if_neg hasFail] at reg
      rw [reg]
      rfl
  refine good.settle settles ?_ ?_ ?_ ?_ (by simp) (by simp)
  · intro id
    have held := good.contents id
    have here : (state.nodes key).awaitingTasks.filter (advances id) =
        (phase id).contents.awaiting key := congrFun (congrArg Contents.awaiting held) key
    rw [settles.contents, held, here]
    cases phase id with
    | awaiting other task =>
      simp only [Phase.settle]
      by_cases same : other = key
      · rw [if_pos same]
        refine Contents.ext rfl (by simp [Phase.contents, same]) (funext fun node => ?_) rfl
        by_cases here : node = key <;> simp [Phase.contents, here, same]
      · rw [if_neg same]
        refine Contents.ext rfl (by simp [Phase.contents, Ne.symm same])
          (funext fun node => ?_) rfl
        by_cases here : node = key
        · simp [Phase.contents, here, Ne.symm same]
        · simp [here]
    | absent | running _ | queued _ | consumed | dropped _ =>
      simp [Phase.settle, Phase.contents]
  · intro id
    rw [settles.reported, good.reported, nodes.countP_awaitingTasks, Nat.add_zero]
    cases report id with
    | registered other =>
      simp only [Report.settle, Report.contents]
      by_cases same : other = key
      · rw [if_pos same]
        refine Reports.ext rfl (funext fun node => ?_) rfl
        by_cases here : node = key <;> simp [here, same]
      · rw [if_neg same]
        refine Reports.ext rfl (funext fun node => ?_) rfl
        by_cases here : node = key
        · simp [here, Ne.symm same]
        · simp [here]
    | none | queued | called => simp [Report.settle, Report.contents]
  · intro request made
    refine Fits.settle settles.raises (registered request) ?_ (good.fits request made)
    intro other rest reached unready unfailed reg
    simp only [Phase.settle]
    by_cases same : other = key
    · rw [if_pos same]
      -- the failure function leaves the node, as it can fail no more
      have none : (report request.id).settle key .none = .none := by
        unfold Registered at reg
        split at reg
        · rcases reg with ⟨isReady, -⟩ | ⟨-, -, there⟩ | ⟨isFailed, -⟩
          · exact absurd isReady unready
          · rw [there]
            exact if_pos same
          · exact absurd isFailed unfailed
        · rw [reg]
          rfl
      rw [none]
      obtain ⟨done, keys, passed⟩ := reached.passed
      refine .whenAllReady rest ⟨reached.marked, done ++ [other], by simpa using keys, ?_⟩
      intro node member
      cases mem_append.mp member with
      | inl inside => exact passed node inside
      | inr last => exact (ready node).mpr (.inl ((mem_singleton.mp last).trans same))
    · rw [if_neg same]
      exact .awaiting other rest reached (by simp [ready, same, unready])
        (mt (failed other).mp unfailed) _ (registered request other _ reg)
  · intro request member
    obtain ⟨other, rest, wrong⟩ := nodes.awaitingTasks key _ member
    cases wrong

theorem settle_consumed {forward : Task Key Value → Phase Key Value}
    (unlike : ∀ task, forward task ≠ .consumed) (place : Phase Key Value) :
    place.settle key forward = .consumed ↔ place = .consumed := by
  match place with
  | .awaiting other task =>
    simp only [Phase.settle]
    split <;> simp [unlike]
  | .absent | .running _ | .queued _ | .consumed | .dropped _ => simp [Phase.settle]

end Nodes

section Creators

variable [DecidableEq Key] {state : State Key Value} {ghost : Ghost Key Value}
  {before after : List (Thread Key Value)} {key : Key} {loggers : List Key}

theorem failNode_settled (settled : Ready state key ∨ Failed state key) :
    state.failNode key = state := by
  have same : (state.nodes key).fail = (state.nodes key, []) := by
    unfold Node.fail
    cases settled with
    | inl ready => exact if_pos ready
    | inr failed =>
      split
      · rfl
      · exact if_pos failed
  simp [State.failNode, same, State.setNode, State.queueTasks]

theorem failNode_settles (open' : ¬ Ready state key ∧ ¬ Failed state key) :
    Settles state (state.failNode key) key (state.nodes key).failureTasks ∧
      (∀ other, Ready (state.failNode key) other ↔ Ready state other) ∧
      ∀ other, Failed (state.failNode key) other ↔ other = key ∨ Failed state other := by
  have node : (state.nodes key).fail =
      ({ state.nodes key with failed := true, awaitingTasks := [], failureTasks := [] },
        (state.nodes key).failureTasks) := by
    unfold Node.fail
    exact (if_neg open'.1).trans (if_neg open'.2)
  have nodes : ∀ other, (state.failNode key).nodes other = if other = key then
      { state.nodes key with failed := true, awaitingTasks := [], failureTasks := [] }
      else state.nodes other := by
    intro other
    simp [State.failNode, node, State.setNode, State.queueTasks, Function.update_apply]
  refine ⟨⟨⟨fun other => ?_, fun other value held => ?_, fun other failed => ?_⟩, open', ?_,
    fun other unlike => ?_, ?_, rfl, rfl, rfl, rfl⟩, fun other => ?_, fun other => ?_⟩
  · by_cases same : other = key <;> simp [Marked, nodes, same]
  · by_cases same : other = key
    · subst same
      simpa [nodes] using held
    · simpa [nodes, same] using held
  · by_cases same : other = key
    · simp [Failed, nodes, same]
    · simpa [Failed, nodes, same] using failed
  · simp [nodes]
  · simp [nodes, unlike]
  · simp [State.failNode, node, State.setNode, State.queueTasks]
  · by_cases same : other = key <;> simp [Ready, Node.isReady, nodes, same]
  · by_cases same : other = key <;> simp [Failed, nodes, same]

theorem Nodes.settle {next : State Key Value} {tasks : List (Task Key Value)}
    (good : Nodes state) (settles : Settles state next key tasks)
    (exclusive : ∀ other, Ready next other → ¬ Failed next other) : Nodes next where
  exclusive := exclusive
  awaitingTasks other task member := by
    by_cases same : other = key
    · rw [same, settles.cleared.1] at member
      cases member
    · rw [settles.others other same] at member
      exact good.awaitingTasks other task member
  failureTasks other task member := by
    by_cases same : other = key
    · rw [same, settles.cleared.2] at member
      cases member
    · rw [settles.others other same] at member
      exact good.failureTasks other task member

theorem Invariant.failNode (good : Invariant state ghost) (key : Key) :
    ∃ later, Invariant (state.failNode key) later ∧ later.creation = ghost.creation ∧
      (∀ id, ghost.report id = .queued → later.report id = .queued) ∧
      (Ready (state.failNode key) key ∨ Failed (state.failNode key) key) := by
  by_cases settled : Ready state key ∨ Failed state key
  · rw [failNode_settled settled]
    exact ⟨ghost, good, rfl, fun _ => id, settled⟩
  · obtain ⟨settles, ready, failed⟩ := failNode_settles (not_or.mp settled)
    have consumed : ∀ id, (ghost.phase id).settle key (fun _ => .dropped key) = .consumed ↔
        ghost.phase id = .consumed := fun id => settle_consumed (fun _ => by simp) _
    refine ⟨⟨_, _, ghost.creation⟩,
      ⟨good.nodes.settle settles ?_, good.progress.fail good.nodes settles ready failed, ?_⟩, rfl,
      fun id queued => by simp [queued], .inr ((failed key).mpr (.inl rfl))⟩
    · intro other isReady isFailed
      have before := (ready other).mp isReady
      cases (failed other).mp isFailed with
      | inl same => exact settles.open'.1 (same ▸ before)
      | inr others => exact good.nodes.exclusive other before others
    · exact {
        creations := fun other => by
          rw [← good.created.creations other]
          have none : (state.nodes key).failureTasks.filter (starts other) = [] := by
            refine List.filter_eq_nil_iff.mpr fun task member => ?_
            obtain ⟨request, rfl⟩ := good.nodes.failureTasks key task member
            simp [starts]
          simp only [AsyncMap.creations, settles.rest.1, settles.queue, settles.rest.2.2.2,
            filter_append, none, append_nil]
        idle := fun other => by rw [settles.raises.marked, good.created.idle]
        ready := fun other isReady => good.created.ready other ((ready other).mp isReady)
        settled := fun other done =>
          (good.created.settled other done).imp settles.raises.ready (settles.raises.failed other)
        asking := fun other id asking => by
          obtain ⟨request, made, same, asks, unconsumed⟩ := good.created.asking other id asking
          exact ⟨request, made, same, asks, mt (consumed id).mp unconsumed⟩
        asks := fun request made caller asks unconsumed =>
          good.created.asks request made caller asks
            (mt (consumed request.id).mpr unconsumed) }

variable {phase : Nat → Phase Key Value} {behaviour : Behaviour Key Value}

theorem Created.performing {creation : Key → Creation Key Value}
    (good : Created state phase creation)
    (performing : creation key = .performing loggers behaviour) :
    Marked state key ∧ ¬ Ready state key := by
  constructor
  · by_contra unmarked
    rw [(good.idle key).mpr unmarked] at performing
    cases performing
  · intro ready
    rw [good.ready key ready] at performing
    cases performing

theorem Progress.stop {report : Nat → Report Key} (good : Progress state phase report)
    (threads : state.threads = before ++ .perform key loggers behaviour :: after) :
    Progress { state with threads := before ++ after } phase report := by
  refine good.threads rfl (fun id => ?_) fun caller node known => ?_
  · simp [threads, serves]
  · refine known.imp_right fun member => ?_
    simp only [threads, mem_append, mem_cons, reduceCtorEq, false_or] at member
    exact mem_append.mpr member

theorem Invariant.finish (good : Invariant state ghost) {behaviour : Behaviour Key Value}
    (threads : state.threads = before ++ .perform key loggers behaviour :: after)
    (settled : Ready state key ∨ Failed state key) :
    ∃ ghost, Invariant { state with threads := before ++ after } ghost := by
  have performing : ghost.creation key = .performing loggers behaviour :=
    good.created.perform (threads ▸ by simp)
  have held := good.created.creations key
  rw [performing] at held
  simp only [AsyncMap.creations, Creation.contents, Creations.mk.injEq] at held
  refine ⟨⟨ghost.phase, ghost.report, update ghost.creation key .done⟩,
    good.nodes.same rfl, good.progress.stop threads, ?_⟩
  refine good.created.move rfl (by simp [performing]) (by simp) (by simp)
    (Creations.ext (good.created.alone threads (by simp [creates])) held.2.1 held.2.2) ?_
    (good.created.performing performing).1 (fun _ _ => Iff.rfl) (fun _ _ => Iff.rfl)
    (fun _ _ => id) (fun _ => rfl) (fun _ => settled) (fun _ => Iff.rfl)
  intro other unlike
  have no : ¬ key = other := Ne.symm unlike
  simp [AsyncMap.creations, threads, creates, no]

theorem Invariant.setter (good : Invariant state ghost) {value : Value}
    (threads : state.threads = before ++ .perform key loggers (.setter value) :: after) :
    ∃ ghost, Invariant ({ state with threads := before ++ after }.advance
      (.perform key loggers (.setter value))) ghost := by
  simp only [State.advance]
  by_cases isFailed : Failed state key
  · have same : (state.nodes key).setAndQueueAwaitingTasks value = (state.nodes key, []) :=
      if_pos isFailed
    simp only [same, State.setNode, State.queueTasks, update_eq_self, append_nil]
    exact good.finish threads (.inr isFailed)
  · have node : (state.nodes key).setAndQueueAwaitingTasks value =
        ({ state.nodes key with value := some value, awaitingTasks := [], failureTasks := [] },
          (state.nodes key).awaitingTasks) := if_neg isFailed
    have performing : ghost.creation key = .performing loggers (.setter value) :=
      good.created.perform (threads ▸ by simp)
    obtain ⟨marked, unready⟩ := good.created.performing performing
    simp only [node]
    set stopped : State Key Value := { state with threads := before ++ after } with stop
    set next := (stopped.setNode key { state.nodes key with
      value := some value, awaitingTasks := [], failureTasks := [] }).queueTasks
      (state.nodes key).awaitingTasks with step
    have nodes : ∀ other, next.nodes other = if other = key then
        { state.nodes key with value := some value, awaitingTasks := [], failureTasks := [] }
        else state.nodes other := by
      intro other
      simp [step, stop, State.setNode, State.queueTasks, Function.update_apply]
    have ready : ∀ other, Ready next other ↔ other = key ∨ Ready state other := by
      intro other
      by_cases same : other = key <;> simp [Ready, Node.isReady, nodes, same]
    have failed : ∀ other, Failed next other ↔ Failed state other := by
      intro other
      by_cases same : other = key <;> simp [Failed, nodes, same]
    have settles : Settles stopped next key (state.nodes key).awaitingTasks := by
      refine ⟨⟨fun other => ?_, fun other held set => ?_, fun other => (failed other).mpr⟩,
        ⟨unready, isFailed⟩, by simp [nodes], fun other unlike => by simp [nodes, unlike, stop], rfl,
        rfl, rfl, rfl, rfl⟩
      · by_cases same : other = key <;> simp [Marked, nodes, same, stop]
      · by_cases same : other = key
        · refine absurd ?_ unready
          subst same
          exact isSome_iff_exists.mpr ⟨held, set⟩
        · simpa [nodes, same] using set
    have stoppedNodes : Nodes stopped := good.nodes.same rfl
    refine ⟨⟨_, _, update ghost.creation key .done⟩, stoppedNodes.settle settles ?_,
      (good.progress.stop threads).set stoppedNodes settles ready failed, ?_⟩
    · intro other isReady isFailed'
      have before := (failed other).mp isFailed'
      cases (ready other).mp isReady with
      | inl same => exact isFailed (same ▸ before)
      | inr others => exact good.nodes.exclusive other others before
    · have held := good.created.creations key
      rw [performing] at held
      simp only [AsyncMap.creations, Creation.contents, Creations.mk.injEq] at held
      have none : ∀ other, (state.nodes key).awaitingTasks.filter (starts other) = [] := by
        intro other
        refine List.filter_eq_nil_iff.mpr fun task member => ?_
        obtain ⟨request, rest, rfl⟩ := good.nodes.awaitingTasks key task member
        simp [starts]
      refine good.created.move rfl (by simp [performing]) (by simp) (by simp) ?_ ?_
        ((settles.raises.marked key).mpr marked) (fun other _ => settles.raises.marked other)
        (fun other unlike => by simp [ready, unlike]) (fun other _ => (failed other).mpr)
        (fun _ => rfl) (fun _ => .inl ((ready key).mpr (.inl rfl)))
        (fun id => settle_consumed (fun _ => by simp) _)
      · refine Creations.ext (good.created.alone threads (by simp [creates])) ?_ held.2.2
        simp only [AsyncMap.creations, settles.queue, filter_append, none, append_nil]
        exact held.2.1
      · intro other unlike
        have no : ¬ key = other := Ne.symm unlike
        refine Creations.ext ?_ ?_ rfl
        · simp [AsyncMap.creations, step, stop, State.setNode, State.queueTasks, threads,
            creates, no]
        · simp only [AsyncMap.creations, settles.queue, filter_append, none, append_nil, stop]

theorem Invariant.fatal (good : Invariant state ghost)
    (threads : state.threads = before ++ .perform key loggers .fatal :: after) :
    ∃ ghost, Invariant ({ state with threads := before ++ after }.advance
      (.perform key loggers .fatal)) ghost := by
  obtain ⟨later, good', -, -, settled⟩ := good.failNode key
  have threads' : (state.failNode key).threads =
      before ++ .perform key loggers .fatal :: after := threads
  obtain ⟨last, good''⟩ := good'.finish threads' settled
  exact ⟨last, good''.go ⟨fun _ => rfl, fun _ => rfl⟩⟩

theorem Invariant.log_cons (good : Invariant state ghost) {rest : List Key}
    (threads : state.threads = before ++ .log (key :: rest) :: after) :
    ∃ ghost, Invariant ({ state with threads := before ++ after }.advance
      (.log (key :: rest))) ghost := by
  have stopped := good.stop threads ⟨fun _ => rfl, fun _ => rfl⟩ (by simp)
  obtain ⟨later, good', -⟩ := stopped.failNode key
  exact ⟨later, good'.go ⟨fun _ => rfl, fun _ => rfl⟩⟩

end Creators

end Jst.Verif.AsyncMap
