import Jst.Data.Totals
import Jst.Multithreading.TaskSystem
/-!
# Accounts of the task system

`Moves` lists what a thread can do, once for all that follows. Whatever is counted over the places
of the threads and the entries of the queues changes in a step by the difference at the place of the
thread and by the entry that is removed or added.
-/
namespace Jst.Verif.TaskSystem

open Jst.Multithreading.TaskSystem Totals

/-- What a thread at a point can do to the shared data, and where it goes. -/
inductive Moves (n : Nat) (state : State) (thread : Nat) : Point → Access → Point → Prop where
  | leave (shut : state.shutdown = true) : Moves n state thread .loop .load .finished
  | enter : Moves n state thread .loop .load (.tryPop 0)
  | miss {attempt : Nat} (more : attempt < n) :
    Moves n state thread (.tryPop attempt) .load (.tryPop (attempt + 1))
  | steal {attempt queue ticket : Nat} {task : Code} {rest : List (Nat × Code)} (more : attempt < n)
    (isQueue : queue = (thread + attempt) % n) (free : state.held queue = false)
    (front : state.queues queue = (ticket, task) :: rest) :
    Moves n state thread (.tryPop attempt) (.take queue ticket) (.got ticket task)
  | giveUp {attempt : Nat} : Moves n state thread (.tryPop attempt) .load .pop
  | popFirst {queue ticket : Nat} {task : Code} {rest : List (Nat × Code)} (isQueue : queue = thread % n)
    (free : state.held queue = false) (front : state.queues queue = (ticket, task) :: rest) :
    Moves n state thread .pop (.take queue ticket) (.got ticket task)
  | popDone (isDone : state.done (thread % n) = true) : Moves n state thread .pop .load .finished
  | block (empty : state.queues (thread % n) = []) : Moves n state thread .pop .block .blocked
  | startle (some : state.queues (thread % n) ≠ [] ∨ state.done (thread % n) = true) :
    Moves n state thread .blocked .wake .woken
  | wake (some : state.queues (thread % n) ≠ [] ∨ state.done (thread % n) = true) :
    Moves n state thread .awake .wake .woken
  | sleepOn (empty : state.queues (thread % n) = []) : Moves n state thread .awake .load .blocked
  | popWoken {queue ticket : Nat} {task : Code} {rest : List (Nat × Code)} (isQueue : queue = thread % n)
    (front : state.queues queue = (ticket, task) :: rest) :
    Moves n state thread .woken (.take queue ticket) (.got ticket task)
  | wokenDone (empty : state.queues (thread % n) = []) : Moves n state thread .woken .load .finished
  | drop {ticket : Nat} {task : Code} (shut : state.shutdown = true) :
    Moves n state thread (.got ticket task) .load .finished
  | startTask {ticket : Nat} {task : Code} :
    Moves n state thread (.got ticket task) .load (.body ⟨some ticket, task⟩)
  | call {ticket : Option Nat} {task rest : Code} :
    Moves n state thread (.body ⟨ticket, .queue task rest⟩) .draw
      (.tryPush state.index 0 task ⟨ticket, rest⟩)
  | shut {ticket : Option Nat} {rest : Code} :
    Moves n state thread (.body ⟨ticket, .shutdown rest⟩) .shutdown (.closing 0 ⟨ticket, rest⟩)
  | complete {ticket : Nat} :
    Moves n state thread (.body ⟨some ticket, .finish⟩) (.complete ticket) .loop
  | returned : Moves n state thread (.body ⟨none, .finish⟩) .load .finished
  | retry {idx attempt : Nat} {task : Code} {frame : Frame} (more : attempt < n * numberOfAttempts) :
    Moves n state thread (.tryPush idx attempt task frame) .load (.tryPush idx (attempt + 1) task frame)
  | tryPush {idx attempt queue : Nat} {task : Code} {frame : Frame}
    (more : attempt < n * numberOfAttempts) (isQueue : queue = slot n idx attempt)
    (free : state.held queue = false) :
    Moves n state thread (.tryPush idx attempt task frame) (.tryPush queue idx task)
      (.notify queue frame)
  | announce {idx attempt : Nat} {task : Code} {frame : Frame}
    (noMore : n * numberOfAttempts ≤ attempt) :
    Moves n state thread (.tryPush idx attempt task frame) .announce (.announced idx task frame)
  | push {idx queue : Nat} {task : Code} {frame : Frame} (isQueue : queue = slot n idx 0)
    (free : state.held queue = false) :
    Moves n state thread (.announced idx task frame) (.push queue idx task) (.notify queue frame)
  | notify {queue : Nat} {frame : Frame} :
    Moves n state thread (.notify queue frame) (.notify queue) (.body frame)
  | close {queue : Nat} {frame : Frame} (more : queue < n) :
    Moves n state thread (.closing queue frame) (.close queue) (.closed queue frame)
  | allClosed {queue : Nat} {frame : Frame} :
    Moves n state thread (.closing queue frame) .load (.body frame)
  | notifyAll {queue : Nat} {frame : Frame} :
    Moves n state thread (.closed queue frame) (.notify queue) (.closing (queue + 1) frame)

section Steps

variable {n : Nat} {state : State} {thread : Nat} {event : Event} {access : Access} {point : Point}

theorem moves_run (frame : Frame) :
    Moves n state thread (.body frame) (run state frame).1 (run state frame).2 := by
  obtain ⟨ticket, rest⟩ := frame
  cases rest with
  | finish =>
    cases ticket with
    | some ticket => exact .complete
    | none => exact .returned
  | queue task rest => exact .call
  | shutdown rest => exact .shut

theorem moves_of_exec (taken : exec n state thread event = some (access, point)) :
    Moves n state thread (state.points thread) access point := by
  revert taken
  fun_cases exec n state thread event
  case case1 isLoop =>
    rintro ⟨⟩
    rw [isLoop]
    split
    · next shut => exact .leave shut
    · exact .enter
  case case2 attempt isPoint more _ _ =>
    rintro ⟨⟩
    rw [isPoint]
    exact .miss more
  case case3 attempt isPoint more _ free ticket task rest front =>
    rintro ⟨⟩
    rw [isPoint]
    exact .steal more rfl (Bool.eq_false_of_not_eq_true free) front
  case case4 attempt isPoint more _ _ _ =>
    rintro ⟨⟩
    rw [isPoint]
    exact .miss more
  case case5 attempt isPoint _ =>
    rintro ⟨⟩
    rw [isPoint]
    exact .giveUp
  case case6 attempt isPoint more =>
    rintro ⟨⟩
    rw [isPoint]
    exact .miss more
  case case9 isPoint _ free ticket task rest front =>
    rintro ⟨⟩
    rw [isPoint]
    exact .popFirst rfl (Bool.eq_false_of_not_eq_true free) front
  case case10 isPoint _ _ _ isDone =>
    rintro ⟨⟩
    rw [isPoint]
    exact .popDone isDone
  case case11 isPoint _ _ empty _ =>
    rintro ⟨⟩
    rw [isPoint]
    exact .block empty
  case case12 isPoint _ some =>
    rintro ⟨⟩
    rw [isPoint]
    exact .startle some
  case case14 isPoint _ some =>
    rintro ⟨⟩
    rw [isPoint]
    exact .wake some
  case case15 isPoint _ none' =>
    rintro ⟨⟩
    rw [isPoint]
    exact .sleepOn (by by_contra some; exact none' (.inl some))
  case case16 isPoint _ ticket task rest front =>
    rintro ⟨⟩
    rw [isPoint]
    exact .popWoken rfl front
  case case17 isPoint _ empty =>
    rintro ⟨⟩
    rw [isPoint]
    exact .wokenDone empty
  case case18 ticket task isPoint =>
    rintro ⟨⟩
    rw [isPoint]
    split
    · next shut => exact .drop shut
    · exact .startTask
  case case19 frame isPoint =>
    intro ran
    have same := Option.some.inj ran
    have moves := @moves_run n state thread frame
    rw [same] at moves
    rw [isPoint]
    exact moves
  case case20 idx attempt task frame isPoint more _ _ =>
    rintro ⟨⟩
    rw [isPoint]
    exact .retry more
  case case21 idx attempt task frame isPoint more _ free =>
    rintro ⟨⟩
    rw [isPoint]
    exact .tryPush more rfl (Bool.eq_false_of_not_eq_true free)
  case case22 idx attempt task frame isPoint noMore =>
    rintro ⟨⟩
    rw [isPoint]
    exact .announce (Nat.le_of_not_lt noMore)
  case case23 idx attempt task frame isPoint more =>
    rintro ⟨⟩
    rw [isPoint]
    exact .retry more
  case case26 idx task frame isPoint _ free =>
    rintro ⟨⟩
    rw [isPoint]
    exact .push rfl (Bool.eq_false_of_not_eq_true free)
  case case27 queue frame isPoint =>
    rintro ⟨⟩
    rw [isPoint]
    exact .notify
  case case29 queue frame isPoint more _ =>
    rintro ⟨⟩
    rw [isPoint]
    exact .close more
  case case30 queue frame isPoint _ =>
    rintro ⟨⟩
    rw [isPoint]
    exact .allClosed
  case case31 queue frame isPoint =>
    rintro ⟨⟩
    rw [isPoint]
    exact .notifyAll
  all_goals rintro ⟨⟩

end Steps

/-! ## Accounts -/

/-- What is counted over the places of threads and the entries of queues. -/
structure Measure where
  place : Nat → Point → Int
  entry : Nat × Code → Int

/-- What a measure amounts to in a state. -/
def Measure.amount (measure : Measure) (threads n : Nat) (state : State) : Int :=
  total threads measure.place state.points +
    total n (fun _ entries => (entries.map measure.entry).sum) state.queues

/-- What an access changes: the entry that is removed or added, and the worker that is notified. -/
def Measure.change (measure : Measure) (state : State) : Access → Int
  | .take queue _ => -((state.queues queue).head?.map measure.entry).getD 0
  | .tryPush _ ticket task => measure.entry (ticket, task)
  | .push _ ticket task => measure.entry (ticket, task)
  | .notify queue =>
    if state.points queue = .blocked then measure.place queue .awake - measure.place queue .blocked
    else 0
  | _ => 0

variable {measure : Measure}

theorem Measure.amount_nonneg (places : ∀ thread point, 0 ≤ measure.place thread point)
    (entries : ∀ entry, 0 ≤ measure.entry entry) (threads n : Nat) (state : State) :
    0 ≤ measure.amount threads n state := by
  have queued : 0 ≤ total n (fun _ entries => (entries.map measure.entry).sum) state.queues := by
    refine total_nonneg fun _ list => List.sum_nonneg fun weight inside => ?_
    obtain ⟨entry, -, rfl⟩ := List.mem_map.mp inside
    exact entries entry
  exact Int.add_nonneg (total_nonneg places) queued

theorem Measure.amount_eq_zero {threads n : Nat} {state : State}
    (places : ∀ thread, thread < threads → measure.place thread (state.points thread) = 0)
    (queues : ∀ queue, queue < n → state.queues queue = []) :
    measure.amount threads n state = 0 := by
  have queued : total n (fun _ entries => (entries.map measure.entry).sum) state.queues = 0 :=
    total_eq_zero fun queue isQueue => by rw [queues queue isQueue]; rfl
  rw [Measure.amount, total_eq_zero places, queued]
  rfl

/-- Threads from a number on have finished. -/
def Within (threads : Nat) (state : State) : Prop :=
  ∀ thread, threads ≤ thread → state.points thread = .finished

section Amount

variable {n threads : Nat} {state : State} {thread : Nat} {access : Access} {point : Point}

theorem Moves.inside (moves : Moves n state thread (state.points thread) access point)
    (within : Within threads state) : thread < threads := by
  by_contra outside
  rw [within thread (Nat.le_of_not_lt outside)] at moves
  cases moves

theorem total_tail (measure : Measure) {queue : Nat} (inside : queue < n)
    (queues : Nat → List (Nat × Code)) : total n (fun _ entries => (entries.map measure.entry).sum)
        (Function.update queues queue (queues queue).tail) =
      total n (fun _ entries => (entries.map measure.entry).sum) queues -
        ((queues queue).head?.map measure.entry).getD 0 := by
  rw [total_update inside]
  cases queues queue with
  | nil => simp
  | cons entry rest =>
    simp only [List.tail_cons, List.map_cons, List.sum_cons, List.head?_cons, Option.map_some,
      Option.getD_some]
    omega

theorem total_concat (measure : Measure) {queue : Nat} (inside : queue < n)
    (queues : Nat → List (Nat × Code)) (entry : Nat × Code) :
    total n (fun _ entries => (entries.map measure.entry).sum)
        (Function.update queues queue (queues queue ++ [entry])) =
      total n (fun _ entries => (entries.map measure.entry).sum) queues + measure.entry entry := by
  rw [total_update inside]
  simp only [List.map_append, List.sum_append, List.map_singleton, List.sum_singleton]
  omega

theorem Moves.queue_lt (moves : Moves n state thread (state.points thread) access point)
    (positive : 0 < n) : (∀ queue ticket, access = .take queue ticket → queue < n) ∧
    (∀ queue ticket task, access = .tryPush queue ticket task → queue < n) ∧
    ∀ queue ticket task, access = .push queue ticket task → queue < n := by
  refine ⟨?_, ?_, ?_⟩
  · rintro queue ticket rfl
    generalize state.points thread = place at moves
    cases moves with
    | steal _ isQueue | popFirst isQueue | popWoken isQueue =>
      rw [isQueue]
      exact Nat.mod_lt _ positive
  · rintro queue ticket task rfl
    generalize state.points thread = place at moves
    cases moves with
    | tryPush _ isQueue =>
      rw [isQueue]
      exact Nat.mod_lt _ positive
  · rintro queue ticket task rfl
    generalize state.points thread = place at moves
    cases moves with
    | push isQueue =>
      rw [isQueue]
      exact Nat.mod_lt _ positive

theorem amount_move (measure : Measure) (positive : 0 < n) (within : Within threads state)
    (moves : Moves n state thread (state.points thread) access point) :
    measure.amount threads n (state.move thread access point) = measure.amount threads n state +
        (measure.place thread point - measure.place thread (state.points thread)) +
        measure.change state access := by
  have inside := moves.inside within
  obtain ⟨takes, tries, pushes⟩ := moves.queue_lt positive
  -- Only a notification changes the place of another thread.
  have places : total threads measure.place (state.move thread access point).points =
      total threads measure.place (state.access thread access).points +
        (measure.place thread point - measure.place thread (state.points thread)) := by
    have still : (state.access thread access).points thread = state.points thread := by
      generalize stands : state.points thread = place at moves
      cases access with
      | notify queue =>
        simp only [State.access]
        split
        · next waits =>
          have differ : thread ≠ queue := by
            rintro rfl
            rw [waits] at stands
            rw [← stands] at moves
            cases moves
          exact (Function.update_of_ne differ _ _).trans stands
        · exact stands
      | _ => exact stands
    show total threads measure.place (Function.update (state.access thread access).points thread point) = _
    rw [total_update inside, still]
  rw [Measure.amount, Measure.amount, places]
  show _ + total n _ (state.access thread access).queues = _
  cases access with
  | take queue ticket =>
    simp only [State.access, Measure.change, total_tail measure (takes queue ticket rfl)]
    omega
  | tryPush queue ticket task =>
    simp only [State.access, Measure.change, total_concat measure (tries queue ticket task rfl)]
    omega
  | push queue ticket task =>
    simp only [State.access, Measure.change, total_concat measure (pushes queue ticket task rfl)]
    omega
  | notify queue =>
    simp only [State.access, Measure.change]
    split
    · next waits =>
      have inside' : queue < threads := by
        by_contra outside
        rw [within queue (Nat.le_of_not_lt outside)] at waits
        cases waits
      simp only [total_update inside', waits]
      omega
    · omega
  | _ =>
    simp only [State.access, Measure.change]
    omega

end Amount

end Jst.Verif.TaskSystem
