import Jst.Verif.AsyncMap.Places
/-!
# Requests that change their place

What a step does to one request, while all others stay where they are, is said once; each step of a
thread that leaves the nodes alone is a case of it.
-/
namespace Jst.Verif.AsyncMap

open Multithreading

variable {Key Value : Type}

section Flags

variable {state next : State Key Value}

/-- The flags of the nodes stay, but nodes may get marked. -/
structure SameFlags (state next : State Key Value) : Prop where
  marked : ∀ key, Marked state key → Marked next key
  value : ∀ key, (next.nodes key).value = (state.nodes key).value
  failed : ∀ key, (next.nodes key).failed = (state.nodes key).failed

theorem SameFlags.refl (nodes : next.nodes = state.nodes) : SameFlags state next where
  marked := by simp [Marked, nodes]
  value := by simp [nodes]
  failed := by simp [nodes]

theorem SameFlags.ready (same : SameFlags state next) (key : Key) :
    Ready next key ↔ Ready state key := by
  simp [Ready, Node.isReady, same.value]

theorem SameFlags.failed_iff (same : SameFlags state next) (key : Key) :
    Failed next key ↔ Failed state key := by
  simp [Failed, same.failed]

theorem Reached.same {request : Request Key Value} {rest : List Key} (same : SameFlags state next)
    (reached : Reached state request rest) : Reached next request rest where
  marked := fun key member => same.marked key (reached.marked key member)
  passed := by simpa only [same.ready] using reached.passed

theorem Fits.same {request : Request Key Value} {place : Phase Key Value} {there : Report Key}
    (same : SameFlags state next) (fits : Fits state request place there) :
    Fits next request place there := by
  have registered : ∀ key there, Registered state request key there →
      Registered next request key there := by
    intro key there registered
    simpa only [Registered, same.ready, same.failed_iff] using registered
  cases fits with
  | ensure rest some' passed =>
    obtain ⟨done, keys, marked⟩ := passed
    exact .ensure rest some' ⟨done, keys, fun key member => same.marked key (marked key member)⟩
  | enqueue key rest isMarked passed =>
    obtain ⟨done, keys, marked⟩ := passed
    exact .enqueue key rest (same.marked key isMarked)
      ⟨done, keys, fun key member => same.marked key (marked key member)⟩
  | onFailure key rest reached => exact .onFailure key rest (reached.same same)
  | onFailureLocked key rest reached hasFail =>
    exact .onFailureLocked key rest (reached.same same) hasFail
  | await key rest reached _ reg => exact .await key rest (reached.same same) _ (registered _ _ reg)
  | awaitLocked key rest reached _ reg =>
    exact .awaitLocked key rest (reached.same same) _ (registered _ _ reg)
  | awaiting key rest reached unready unfailed _ reg =>
    exact .awaiting key rest (reached.same same) (mt (same.ready key).mp unready)
      (mt (same.failed_iff key).mp unfailed) _ (registered _ _ reg)
  | whenAllReady rest reached => exact .whenAllReady rest (reached.same same)
  | consume ready => exact .consume fun key member => (same.ready key).mpr (ready key member)
  | consumed ready => exact .consumed fun key member => (same.ready key).mpr (ready key member)
  | dropped key requested failed _ reg =>
    exact .dropped key requested ((same.failed_iff key).mpr failed) _ (registered _ _ reg)

theorem SameFlags.values (same : SameFlags state next) (keys : List Key) :
    next.values keys = state.values keys := by
  simp [State.values, same.value]

end Flags

section Moves

variable [DecidableEq Key] {state next : State Key Value} {phase : Nat → Phase Key Value}
  {report : Nat → Report Key} {creation : Key → Creation Key Value}

/-- One request changes its place. -/
structure Moves (state next : State Key Value) (request : Request Key Value)
    (place : Phase Key Value) (there : Report Key) : Prop where
  made : request ∈ state.requests
  requests : next.requests = state.requests := by rfl
  flags : SameFlags state next
  own : contents next request.id = place.contents
  others : ∀ id, id ≠ request.id → contents next id = contents state id
  ownReport : reported next request.id = there.contents
  otherReports : ∀ id, id ≠ request.id → reported next id = reported state id
  fits : Fits next request place there
  failures : ∀ other, Holds next other → Holds state other ∨ other = request := by
    exact fun _ held => .inl held
  recorded : ∀ caller key task, request.consumerId = some caller → place = .awaiting key task →
      (caller, key) ∈ next.nodeRequests ∨ .record caller key ∈ next.threads := by
    intro _ _ _ _ waits
    cases waits
  records : ∀ caller key, (caller, key) ∈ state.nodeRequests ∨ .record caller key ∈ state.threads →
    (caller, key) ∈ next.nodeRequests ∨ .record caller key ∈ next.threads
  values : ∀ other values, .consumed other values ∈ next.events →
      .consumed other values ∈ state.events ∨ state.values other.keys = some values := by
    exact fun _ _ event => .inl event
  settled : there = .called → ∀ caller, request.consumerId = some caller →
      Ready next caller ∨ Failed next caller := by
    intro called
    cases called

variable {there : Report Key}

theorem Progress.move (good : Progress state phase report) {request : Request Key Value}
    {place : Phase Key Value} (moves : Moves state next request place there) :
    Progress next (update phase request.id place) (update report request.id there) where
  contents id := by
    by_cases same : id = request.id
    · rw [same, update_self, moves.own]
    · rw [update_of_ne same, moves.others id same, good.contents]
  reported id := by
    by_cases same : id = request.id
    · rw [same, update_self, moves.ownReport]
    · rw [update_of_ne same, moves.otherReports id same, good.reported]
  fits other made := by
    rw [moves.requests] at made
    by_cases same : other.id = request.id
    · rw [same, update_self, update_self, good.unique made moves.made same]
      exact moves.fits
    · rw [update_of_ne same, update_of_ne same]
      exact (good.fits other made).same moves.flags
  absent id outside := by
    rw [moves.requests] at outside
    obtain ⟨index, found⟩ := List.mem_iff_getElem?.mp moves.made
    have inside : request.id < state.requests.length := by
      rw [good.numbered index request found]
      exact (List.getElem?_eq_some_iff.mp found).1
    have unlike : id ≠ request.id := by omega
    rw [update_of_ne unlike, update_of_ne unlike]
    exact good.absent id outside
  numbered id other := by
    rw [moves.requests]
    exact good.numbered id other
  failures other held := by
    rw [moves.requests]
    cases moves.failures other held with
    | inl before => exact good.failures other before
    | inr same => exact same ▸ moves.made
  recorded other made caller key task asks waits := by
    rw [moves.requests] at made
    by_cases same : other.id = request.id
    · rw [same, update_self] at waits
      rw [good.unique made moves.made same] at asks
      exact moves.recorded caller key task asks waits
    · rw [update_of_ne same] at waits
      exact moves.records caller key (good.recorded other made caller key task asks waits)
  values other values event := by
    rw [moves.flags.values]
    cases moves.values other values event with
    | inl before => exact good.values other values before
    | inr now => exact now
  settled other made caller asks called := by
    rw [moves.requests] at made
    by_cases same : other.id = request.id
    · rw [same, update_self] at called
      rw [good.unique made moves.made same] at asks
      exact moves.settled called caller asks
    · rw [update_of_ne same] at called
      rw [moves.flags.ready, moves.flags.failed_iff]
      exact good.settled other made caller asks called

theorem Progress.kept (good : Progress state phase report)
    (quiet : ∀ id, AsyncMap.reported next id = AsyncMap.reported state id) {id : Nat}
    (place : report id = there) : AsyncMap.reported next id = there.contents := by
  rw [quiet, good.reported, place]

theorem Created.same {later : Nat → Phase Key Value} (good : Created state phase creation)
    (requests : next.requests = state.requests) (flags : SameFlags state next)
    (marks : ∀ key, Marked next key → Marked state key)
    (held : ∀ key, AsyncMap.creations next key = AsyncMap.creations state key)
    (consumed : ∀ id, later id = .consumed ↔ phase id = .consumed) :
    Created next later creation where
  creations key := by rw [held, good.creations]
  idle key := by
    rw [good.idle]
    exact not_congr ⟨flags.marked key, marks key⟩
  ready key := by
    rw [flags.ready]
    exact good.ready key
  settled key := by
    rw [flags.ready, flags.failed_iff]
    exact good.settled key
  asking key id := by
    simpa only [requests, ne_eq, consumed] using good.asking key id
  asks := by
    simpa only [requests, ne_eq, consumed] using good.asks

end Moves

section Threads

variable [DecidableEq Key] {state : State Key Value} {ghost : Ghost Key Value}
  {before after : List (Thread Key Value)} {thread thread' : Thread Key Value}
  {request : Request Key Value}

omit [DecidableEq Key] in
theorem filter_last {Item : Type} {kind : Item → Bool} {list : List Item} {last : Item}
    (alone : list.filter kind = []) (own : kind last = true) :
    (list ++ [last]).filter kind = [last] := by
  rw [filter_append, alone, List.filter_singleton, own]
  rfl

theorem Progress.alone {phase : Nat → Phase Key Value} {report : Nat → Report Key}
    (good : Progress state phase report) (threads : state.threads = before ++ thread :: after)
    {id : Nat} (own : serves id thread = true) : (before ++ after).filter (serves id) = [] := by
  have place := good.thread (threads ▸ by simp) own
  have held := congrArg Contents.threads (good.contents id)
  simp only [AsyncMap.contents, place, Phase.contents, threads, filter_append,
    filter_cons, own, if_true] at held
  have length := congrArg List.length held
  simp only [length_append, length_cons, length_nil] at length
  rw [filter_append, List.append_eq_nil_iff]
  exact ⟨List.eq_nil_of_length_eq_zero (by omega), List.eq_nil_of_length_eq_zero (by omega)⟩

theorem Progress.works {phase : Nat → Phase Key Value} {report : Nat → Report Key}
    (good : Progress state phase report) (id : Nat)
    (threads : state.threads = before ++ thread :: after) (own : serves id thread = true) :
    (before ++ after).filter (serves id) = [] ∧ state.queue.filter (advances id) = [] ∧
      (∀ key, (state.nodes key).awaitingTasks.filter (advances id) = []) ∧
      state.events.countP (isConsumed id) = 0 ∧ phase id = .running thread := by
  have place := good.thread (threads ▸ by simp) own
  have held := good.contents id
  rw [place] at held
  simp only [AsyncMap.contents, Phase.contents, Contents.mk.injEq] at held
  exact ⟨good.alone threads own, held.2.1, fun key => congrFun held.2.2.1 key, held.2.2.2, place⟩

omit [DecidableEq Key] in
theorem records_left (threads : state.threads = before ++ thread :: after)
    (unlike : ∀ caller key, thread ≠ .record caller key) (caller key : Key)
    (known : (caller, key) ∈ state.nodeRequests ∨ .record caller key ∈ state.threads) :
    (caller, key) ∈ state.nodeRequests ∨ .record caller key ∈ before ++ after := by
  refine known.imp_right fun member => ?_
  have other := (unlike caller key).symm
  simp only [threads, mem_append, mem_cons] at member
  simp only [mem_append]
  tauto

theorem Created.alone {phase : Nat → Phase Key Value} {creation : Key → Creation Key Value}
    (good : Created state phase creation) (threads : state.threads = before ++ thread :: after)
    {key : Key} (own : creates key thread = true) :
    (before ++ after).filter (creates key) = [] := by
  have held := congrArg Creations.threads (good.creations key)
  have one : ((creation key).contents key).threads.length ≤ 1 := by
    cases creation key <;> simp [Creation.contents]
  rw [← held] at one
  simp only [AsyncMap.creations, threads, filter_append, filter_cons, own, if_true,
    length_append, length_cons] at one
  rw [filter_append, List.append_eq_nil_iff]
  exact ⟨List.eq_nil_of_length_eq_zero (by omega), List.eq_nil_of_length_eq_zero (by omega)⟩

theorem Progress.runs {phase : Nat → Phase Key Value} {report : Nat → Report Key}
    (good : Progress state phase report) (request : Request Key Value)
    (threads : state.threads = before ++ thread :: after) (own : serves request.id thread = true) :
    ∃ made ∈ state.requests, ∃ there, made.id = request.id ∧ report request.id = there ∧
      Fits state made (.running thread) there := by
  have place := good.thread (threads ▸ by simp) own
  obtain ⟨made, listed, same⟩ := good.made (.inl (by rw [place]; simp))
  have fits := good.fits made listed
  rw [same, place] at fits
  exact ⟨made, listed, _, same, rfl, fits⟩

omit [DecidableEq Key] in
variable {place : Phase Key Value}

theorem consumed_update {phase : Nat → Phase Key Value} {id : Nat}
    (now : place ≠ .consumed) (before : phase id ≠ .consumed) (other : Nat) :
    update phase id place other = .consumed ↔ phase other = .consumed := by
  by_cases same : other = id
  · rw [same, update_self]
    exact iff_of_false now before
  · rw [update_of_ne same]

omit [DecidableEq Key] in
theorem Nodes.same {next : State Key Value} (good : Nodes state)
    (nodes : next.nodes = state.nodes) : Nodes next where
  exclusive := by simpa only [Ready, Failed, nodes] using good.exclusive
  awaitingTasks := by simpa only [nodes] using good.awaitingTasks
  failureTasks := by simpa only [nodes] using good.failureTasks

theorem Invariant.move {next : State Key Value} {there : Report Key}
    (good : Invariant state ghost) (moves : Moves state next request place there)
    (nodes : Nodes next) (marks : ∀ key, Marked next key → Marked state key)
    (before : ghost.phase request.id ≠ .consumed) (now : place ≠ .consumed)
    (held : ∀ key, AsyncMap.creations next key = AsyncMap.creations state key) :
    ∃ ghost, Invariant next ghost :=
  ⟨⟨_, _, ghost.creation⟩, nodes, good.progress.move moves,
    good.created.same moves.requests moves.flags marks held (consumed_update now before)⟩

/-- A thread is one of a request, and does nothing else. -/
structure Serves (request : Request Key Value) (thread : Thread Key Value) : Prop where
  serves : ∀ id, serves id thread = decide (request.id = id)
  creates : ∀ key, creates key thread = false
  records : ∀ caller key, thread ≠ .record caller key

/-- A thread that neither serves a request nor creates a key. -/
structure Idle (thread : Thread Key Value) : Prop where
  serves : ∀ id, serves id thread = false
  creates : ∀ key, creates key thread = false

theorem Serves.own (was : Serves request thread) : AsyncMap.serves request.id thread = true := by
  simp [was.serves]

theorem Invariant.replace (good : Invariant state ghost)
    (threads : state.threads = before ++ thread :: after) (was : Serves request thread)
    (is : Serves request thread') (made : request ∈ state.requests)
    (fits : Fits state request (.running thread') (ghost.report request.id)) :
    ∃ ghost, Invariant ({ state with threads := before ++ after }.go thread') ghost := by
  obtain ⟨alone, queue, awaiting, consumed, place⟩ := good.progress.works request.id threads was.own
  have flags : SameFlags state ({ state with threads := before ++ after }.go thread') := .refl rfl
  have moves : Moves state ({ state with threads := before ++ after }.go thread') request
      (.running thread') (ghost.report request.id) := {
    made := made
    requests := rfl
    flags := flags
    own := Contents.ext (filter_last alone (by simp [is.serves])) queue (funext awaiting) consumed
    others id unlike := by
      have no : serves id thread = false := by simpa [was.serves] using Ne.symm unlike
      have no' : serves id thread' = false := by simpa [is.serves] using Ne.symm unlike
      simp [AsyncMap.contents, State.go, threads, no, no']
    ownReport := good.progress.reported request.id
    otherReports _ _ := rfl
    fits := fits.same flags
    failures _ := .inl
    recorded _ _ _ _ waits := by cases waits
    values _ _ := .inl
    records := fun caller key known =>
      (records_left threads was.records caller key known).imp_right (mem_append_left _)
    settled := fun called caller asks =>
      good.progress.settled request made caller asks called }
  have progress := good.progress.move moves
  rw [update_eq_self] at progress
  refine ⟨⟨update ghost.phase request.id (.running thread'), ghost.report,
    ghost.creation⟩, good.nodes.same rfl, progress, ?_⟩
  refine good.created.same rfl flags (fun _ marked => marked) ?_ ?_
  · intro key
    simp [AsyncMap.creations, State.go, threads, was.creates, is.creates]
  · exact consumed_update (by simp) (by simp [place])

end Threads

section Steps

variable [DecidableEq Key] {state : State Key Value} {ghost : Ghost Key Value}
  {before after : List (Thread Key Value)} {request : Request Key Value} {key : Key}
  {rest : List Key}

theorem Invariant.ensure_nil (good : Invariant state ghost)
    (threads : state.threads = before ++ .ensure request [] :: after) : ∃ ghost, Invariant
      ({ state with threads := before ++ after }.go (.onFailure request request.keys)) ghost := by
  obtain ⟨made, listed, there, -, place, fits⟩ :=
    good.progress.runs request threads (by simp [serves])
  cases fits with
  | ensure _ some' passed =>
    refine good.replace threads ⟨fun _ => rfl, fun _ => rfl, by simp⟩
      ⟨fun _ => rfl, fun _ => rfl, by simp⟩ listed ?_
    rw [place]
    match keys : request.keys with
    | [] => exact absurd keys some'
    | first :: others =>
      refine .onFailure first others ⟨?_, [], keys, by simp⟩
      obtain ⟨done, all, marked⟩ := passed
      rw [append_nil] at all
      exact all ▸ marked

theorem Invariant.ensure_marked (good : Invariant state ghost)
    (threads : state.threads = before ++ .ensure request (key :: rest) :: after)
    (marked : Marked state key) : ∃ ghost, Invariant
      ({ state with threads := before ++ after }.go (.ensure request rest)) ghost := by
  obtain ⟨made, listed, there, -, place, fits⟩ :=
    good.progress.runs request threads (by simp [serves])
  cases fits with
  | ensure _ some' passed =>
    refine good.replace threads ⟨fun _ => rfl, fun _ => rfl, by simp⟩
      ⟨fun _ => rfl, fun _ => rfl, by simp⟩ listed ?_
    rw [place]
    obtain ⟨done, keys, before⟩ := passed
    refine .ensure rest some' ⟨done ++ [key], by simpa using keys, ?_⟩
    intro other member
    cases mem_append.mp member with
    | inl inside => exact before other inside
    | inr same => exact mem_singleton.mp same ▸ marked

theorem Invariant.onFailure (good : Invariant state ghost)
    (threads : state.threads = before ++ .onFailure request (key :: rest) :: after) :
    ∃ ghost, Invariant ({ state with threads := before ++ after }.advance
      (.onFailure request (key :: rest))) ghost := by
  obtain ⟨made, listed, there, -, place, fits⟩ :=
    good.progress.runs request threads (by simp [serves])
  cases fits with
  | onFailure _ _ reached =>
    simp only [State.advance]
    split
    · next unready =>
      refine good.replace threads ⟨fun _ => rfl, fun _ => rfl, by simp⟩
        ⟨fun _ => rfl, fun _ => rfl, by simp⟩ listed ?_
      rw [place]
      exact .onFailureLocked key rest reached unready.1
    · next passed =>
      refine good.replace threads ⟨fun _ => rfl, fun _ => rfl, by simp⟩
        ⟨fun _ => rfl, fun _ => rfl, by simp⟩ listed ?_
      rw [place]
      refine .await key rest reached _ ?_
      unfold Registered
      split
      · next hasFail =>
        simp only [hasFail, true_and, not_not] at passed
        exact .inl ⟨passed, rfl⟩
      · rfl

theorem Invariant.await_unready (good : Invariant state ghost)
    (threads : state.threads = before ++ .await request (key :: rest) :: after) : ∃ ghost, Invariant
      ({ state with threads := before ++ after }.go (.awaitLocked request (key :: rest)))
      ghost := by
  obtain ⟨made, listed, there, -, place, fits⟩ :=
    good.progress.runs request threads (by simp [serves])
  cases fits with
  | await _ _ reached _ registered =>
    refine good.replace threads ⟨fun _ => rfl, fun _ => rfl, by simp⟩
      ⟨fun _ => rfl, fun _ => rfl, by simp⟩ listed ?_
    rw [place]
    exact .awaitLocked key rest reached _ registered

end Steps

end Jst.Verif.AsyncMap
