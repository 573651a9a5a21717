import Jst.Verif.TaskSystem.Invariants
import Mathlib.Algebra.BigOperators.Ring.Finset
/-!
# Quiescence of the task system

When the counter is zero, nothing is queued or run. No run goes on for ever, and when no thread can
go on, everything that was queued has been removed from a queue and executed once.
-/
namespace Jst.Verif.TaskSystem

open Jst.Multithreading.TaskSystem Totals Runs
open Finset (card_eq_zero filter_eq_empty_iff mem_range sum_boole)

/-! ## Effort -/

/-- The effort that is left for code, tasks that it queues included. -/
def codeEffort (n : Nat) : Code → Nat
  | .finish => 0
  | .queue task rest => 5 * n + 12 + n + codeEffort n task + codeEffort n rest
  | .shutdown rest => 3 * n + 2 + codeEffort n rest

/-- The effort that is left for a task in a queue. -/
def taskEffort (n : Nat) (task : Code) : Nat := n + 7 + codeEffort n task

/-- The effort that is left for code that is run. -/
def frameEffort (n : Nat) (frame : Frame) : Nat :=
  (if frame.ticket.isSome then n + 6 else 1) + codeEffort n frame.rest

/-- The effort that is left at a place. -/
def placeEffort (n : Nat) : Point → Nat
  | .finished => 0
  | .woken => 1
  | .blocked => 2
  | .awake | .pop => 3
  | .tryPop attempt => n - attempt + 4
  | .loop => n + 5
  | .got _ task => taskEffort n task
  | .body frame => frameEffort n frame
  | .tryPush _ attempt task frame => 5 * n - attempt + 4 + taskEffort n task + frameEffort n frame
  | .announced _ task frame => 3 + taskEffort n task + frameEffort n frame
  | .notify _ frame => 2 + frameEffort n frame
  | .closing queue frame => 3 * (n - queue) + 1 + frameEffort n frame
  | .closed queue frame => (if queue < n then 3 * (n - queue) else 4) + frameEffort n frame

/-- The effort that is left altogether. -/
def effort (n : Nat) : Measure where
  place := fun _ point => placeEffort n point
  entry := fun entry => taskEffort n entry.2

section Effort

variable {threads n : Nat} {state : State} {thread : Nat} {place point : Point} {access : Access}

theorem effort_notify (queue : Nat) : (effort n).change state (.notify queue) ≤ 1 := by
  simp only [Measure.change, effort, placeEffort]
  split <;> simp

theorem effort_move (moves : Moves n state thread place access point) :
    (effort n).place thread point - (effort n).place thread place +
      (effort n).change state access < 0 := by
  cases moves with
  | steal _ _ _ front | popFirst _ _ front | popWoken _ front =>
    rw [change_take _ front]
    simp only [effort, placeEffort]
    omega
  | @notify queue frame | @notifyAll queue frame =>
    have costs := @effort_notify n state queue
    simp only [effort, placeEffort] at costs ⊢
    grind
  | call | shut | complete | returned | startTask | drop =>
    simp only [effort, placeEffort, Measure.change, taskEffort, frameEffort, codeEffort]
    grind
  | _ =>
    simp only [effort, placeEffort, Measure.change, numberOfAttempts] at *
    grind

theorem effort_nonneg (threads n : Nat) (state : State) : 0 ≤ (effort n).amount threads n state := by
  exact Measure.amount_nonneg (fun _ _ => Int.natCast_nonneg _) (fun _ => Int.natCast_nonneg _)
    threads n state

end Effort

/-! ## Accounts -/

/-- The workers that do not wait in `pop`. -/
def awakeWorkers (n : Nat) (state : State) : Nat :=
  ((Finset.range n).filter fun worker => waiting (state.points worker) = false).card

/-- The tasks in the queues. -/
def queuedTasks (n : Nat) (state : State) : Nat :=
  ∑ queue ∈ Finset.range n, (state.queues queue).length

/-- The pushes that have announced a task and not yet added it. -/
def announcements (threads : Nat) (state : State) : Nat :=
  ((Finset.range threads).filter fun thread => isAnnounced (state.points thread) = true).card

section Accounts

variable {threads n : Nat} {state : State} {callers : List Code}

theorem workload_amount (workers : n ≤ threads) : (workload n).amount threads n state =
      awakeWorkers n state + queuedTasks n state + announcements threads state := by
  have awake : (Finset.range threads).filter
      (fun thread => thread < n ∧ waiting (state.points thread) = false) =
      (Finset.range n).filter fun worker => waiting (state.points worker) = false := by
    ext thread
    simp only [Finset.mem_filter, mem_range]
    constructor
    · exact fun inside => inside.2
    · exact fun inside => ⟨Nat.lt_of_lt_of_le inside.1 workers, inside⟩
  have queued : ∀ entries : List (Nat × Code),
      (entries.map fun _ => (1 : Int)).sum = entries.length := by simp
  simp only [Measure.amount, workload, total, Finset.sum_add_distrib, queued]
  rw [sum_boole, sum_boole, awake]
  simp only [awakeWorkers, queuedTasks, announcements, Nat.cast_sum]
  omega

theorem sound_start : Sound (n + callers.length) n (start n callers) := by
  have worker : ∀ thread, thread < n → (start n callers).points thread = .loop := by
    intro thread isWorker
    simp [start, isWorker]
  have caller : ∀ thread, n ≤ thread → (start n callers).points thread = .finished ∨
      ∃ code, (start n callers).points thread = .body ⟨none, code⟩ := by
    intro thread isCaller
    simp only [start, Nat.not_lt.mpr isCaller, if_false]
    split
    · exact .inr ⟨_, rfl⟩
    · exact .inl rfl
  have place : ∀ thread, (start n callers).points thread = .loop ∨
      (start n callers).points thread = .finished ∨
      ∃ code, (start n callers).points thread = .body ⟨none, code⟩ := by
    intro thread
    by_cases isWorker : thread < n
    · exact .inl (worker thread isWorker)
    · exact .inr (caller thread (Nat.le_of_not_lt isWorker))
  have unannounced : ∀ thread, isAnnounced ((start n callers).points thread) = false := by
    intro thread
    rcases place thread with stands | stands | ⟨code, stands⟩ <;> rw [stands] <;> rfl
  constructor
  case within =>
    intro thread outside
    have isCaller : ¬ thread < n := by omega
    have beyond : callers[thread - n]? = none := List.getElem?_eq_none (by omega)
    simp [start, isCaller, beyond]
  case fits =>
    intro thread
    unfold Fits
    split
    · next isWorker =>
      rw [worker thread isWorker]
      simp [frame?]
    · next isCaller =>
      rcases caller thread (Nat.le_of_not_lt isCaller) with stands | ⟨code, stands⟩
      · exact .inl stands
      · exact .inr ⟨code, by rw [stands]; rfl⟩
  case closed =>
    intro _ isDone
    cases isDone
  case closing =>
    intro thread closes
    rcases place thread with stands | stands | ⟨code, stands⟩ <;> rw [stands] at closes <;> cases closes
  case counter =>
    have awake : awakeWorkers n (start n callers) = n := by
      rw [awakeWorkers, Finset.filter_true_of_mem, Finset.card_range]
      intro thread isWorker
      rw [worker thread (mem_range.mp isWorker)]
      rfl
    have queued : queuedTasks n (start n callers) = 0 := by simp [queuedTasks, start]
    have announced : announcements (n + callers.length) (start n callers) = 0 := by
      simp [announcements, unannounced]
    rw [workload_amount (Nat.le_add_right _ _), awake, queued, announced]
    simp [start]
  case numbers =>
    intro ticket
    have nothing : (queuedAs ticket).amount (n + callers.length) n (start n callers) = 0 := by
      refine Measure.amount_eq_zero (fun thread _ => ?_) fun _ _ => rfl
      rcases place thread with stands | stands | ⟨code, stands⟩ <;> rw [stands] <;> rfl
    rw [nothing]
    rfl
  case tasks =>
    intro _ ticket
    have nothing : (runAs ticket).amount (n + callers.length) n (start n callers) = 0 := by
      refine Measure.amount_eq_zero (fun thread _ => ?_) fun _ _ => rfl
      rcases place thread with stands | stands | ⟨code, stands⟩ <;> rw [stands] <;> rfl
    rw [nothing]
    rfl
  case roused => exact fun _ _ _ some' => absurd rfl some'
  case woken =>
    intro _ queue isQueue woken
    rw [worker queue isQueue] at woken
    cases woken

theorem sound_of_reaches (positive : 0 < n) (reached : Reaches (Step n) (start n callers) state) :
    Sound (n + callers.length) n state := by
  refine invariant sound_start (fun sound step => ?_) reached
  obtain ⟨thread, event, access, point, taken, rfl⟩ := step
  exact sound.move positive (moves_of_exec taken)

theorem ends_of_sound (positive : 0 < n) (sound : Sound threads n state) : Ends (Step n) state := by
  refine ends (fun state => ((effort n).amount threads n state).toNat) sound ?_ ?_
  · rintro state next sound ⟨thread, event, access, point, taken, rfl⟩
    exact sound.move positive (moves_of_exec taken)
  · rintro state next sound ⟨thread, event, access, point, taken, rfl⟩
    have moves := moves_of_exec taken
    have changes := amount_move (effort n) positive sound.within moves
    have lowers := effort_move moves
    have behind := effort_nonneg threads n (state.move thread access point)
    exact (Int.toNat_lt_toNat (by omega)).mpr (by omega)

end Accounts

/-! ## Quiescence -/

/-- A task with a number has been removed from a queue once and has been executed once. -/
def DoneOnce (state : State) (ticket : Nat) : Prop :=
  removals state ticket = 1 ∧ state.executed.count ticket = 1

/-- Nothing is queued, announced or run, all workers wait, and what is not about to be queued from
outside has been executed. -/
structure Quiescent (n : Nat) (state : State) : Prop where
  queues : ∀ queue, queue < n → state.queues queue = []
  workers : ∀ worker, worker < n → waiting (state.points worker) = true
  announced : ∀ thread, isAnnounced (state.points thread) = false
  running : ∀ thread, running (state.points thread) = none
  executed : ∀ ticket, ticket < state.index →
    (∀ thread, pending (state.points thread) ≠ some ticket) → DoneOnce state ticket

/-- No thread can go on. -/
def Stuck (n : Nat) (state : State) : Prop := ∀ thread, exec n state thread .go = none

section Quiescence

variable {threads n : Nat} {state : State}

theorem running_of_fits {shutdown : Bool} {thread : Nat} {place : Point}
    (fits : Fits n shutdown thread place) (isCaller : ¬ thread < n) : running place = none := by
  unfold Fits at fits
  rw [if_neg isCaller] at fits
  rcases fits with finished | ⟨rest, code⟩
  · rw [finished]
    rfl
  · cases place with
    | got => cases code
    | _ => simp [running, code]

theorem running_of_waiting {place : Point} (waits : waiting place = true) : running place = none := by
  cases place with
  | blocked | awake => rfl
  | _ => cases waits

theorem removals_le_one (sound : Sound threads n state) (ticket : Nat) :
    removals state ticket ≤ 1 := by
  have numbers := sound.numbers ticket
  have places : ∀ thread point, 0 ≤ (queuedAs ticket).place thread point := by
    intro _ point
    show (0 : Int) ≤ if pending point = some ticket then 1 else 0
    split <;> omega
  have entries : ∀ entry, 0 ≤ (queuedAs ticket).entry entry := by
    intro entry
    show (0 : Int) ≤ if entry.1 = ticket then 1 else 0
    split <;> omega
  have queued := Measure.amount_nonneg places entries threads n state
  split at numbers <;> omega

theorem quiescent_of_counter (sound : Sound threads n state) (workers : n ≤ threads)
    (isOpen : state.shutdown = false) (zero : state.counter = 0) : Quiescent n state := by
  have parts := sound.counter
  rw [workload_amount workers, zero] at parts
  have queues : ∀ queue, queue < n → state.queues queue = [] := by
    intro queue isQueue
    have none' : queuedTasks n state = 0 := by omega
    rw [queuedTasks, Finset.sum_eq_zero_iff] at none'
    exact List.length_eq_zero_iff.mp (none' queue (mem_range.mpr isQueue))
  have waits : ∀ worker, worker < n → waiting (state.points worker) = true := by
    intro worker isWorker
    have none' : awakeWorkers n state = 0 := by omega
    rw [awakeWorkers, card_eq_zero, filter_eq_empty_iff] at none'
    simpa using none' (mem_range.mpr isWorker)
  have announced : ∀ thread, isAnnounced (state.points thread) = false := by
    intro thread
    by_cases inside : thread < threads
    · have none' : announcements threads state = 0 := by omega
      rw [announcements, card_eq_zero, filter_eq_empty_iff] at none'
      simpa using none' (mem_range.mpr inside)
    · rw [sound.within thread (Nat.le_of_not_lt inside)]
      rfl
  have idle : ∀ thread, running (state.points thread) = none := by
    intro thread
    by_cases isWorker : thread < n
    · exact running_of_waiting (waits thread isWorker)
    · exact running_of_fits (sound.fits thread) isWorker
  refine ⟨queues, waits, announced, idle, fun ticket given nowhere => ?_⟩
  have numbers := sound.numbers ticket
  have tasks := sound.tasks isOpen ticket
  have unqueued : (queuedAs ticket).amount threads n state = 0 :=
    Measure.amount_eq_zero (fun thread _ => if_neg (nowhere thread)) queues
  have idle' : (runAs ticket).amount threads n state = 0 :=
    Measure.amount_eq_zero (fun thread _ => if_neg (by rw [idle thread]; exact nofun)) queues
  rw [if_pos given] at numbers
  exact ⟨by omega, by omega⟩

theorem Stuck.point (stuck : Stuck n state) (thread : Nat) :
    state.points thread = .finished ∨ state.points thread = .blocked := by
  -- Whoever holds a lock can go on.
  have free : ∀ queue, state.held queue = false := by
    intro queue
    by_contra held
    have woken : state.points queue = .woken := by simpa [State.held] using held
    have goes := stuck queue
    simp only [exec, woken] at goes
    split at goes <;> cases goes
  have goes := stuck thread
  cases stands : state.points thread with
  | finished => exact .inl rfl
  | blocked => exact .inr rfl
  | tryPop attempt =>
    simp only [exec, stands, free] at goes
    split at goes
    · simp only [Bool.false_eq_true, if_false] at goes
      split at goes <;> cases goes
    · cases goes
  | pop =>
    simp only [exec, stands, free, Bool.false_eq_true, if_false] at goes
    split at goes
    · cases goes
    · split at goes <;> cases goes
  | awake =>
    simp only [exec, stands] at goes
    split at goes <;> cases goes
  | woken =>
    simp only [exec, stands] at goes
    split at goes <;> cases goes
  | tryPush idx attempt task frame =>
    simp only [exec, stands, free, Bool.false_eq_true, if_false] at goes
    split at goes <;> cases goes
  | announced idx task frame =>
    simp only [exec, stands, free, Bool.false_eq_true, if_false] at goes
    cases goes
  | closing queue frame =>
    simp only [exec, stands, free, Bool.false_eq_true, if_false] at goes
    split at goes <;> cases goes
  | loop | got _ _ | body _ | notify _ _ | closed _ _ =>
    simp only [exec, stands] at goes
    cases goes

theorem Stuck.counter (stuck : Stuck n state) (sound : Sound threads n state) (workers : n ≤ threads)
    (isOpen : state.shutdown = false) : state.counter = 0 := by
  have blocked : ∀ worker, worker < n → state.points worker = .blocked := by
    intro worker isWorker
    refine (stuck.point worker).resolve_left fun finished => ?_
    have fits := sound.fits worker
    unfold Fits at fits
    rw [if_pos isWorker] at fits
    rw [fits.1 finished] at isOpen
    cases isOpen
  have empty : ∀ queue, queue < n → state.queues queue = [] := by
    intro queue isQueue
    by_contra some'
    obtain ⟨thread, frame, stands⟩ := sound.roused isOpen queue (blocked queue isQueue) some'
    rcases stuck.point thread with point | point <;> rw [point] at stands <;> cases stands
  have awake : awakeWorkers n state = 0 := by
    rw [awakeWorkers, card_eq_zero, filter_eq_empty_iff]
    intro worker isWorker
    rw [blocked worker (mem_range.mp isWorker)]
    exact nofun
  have queued : queuedTasks n state = 0 :=
    Finset.sum_eq_zero fun queue isQueue => by rw [empty queue (mem_range.mp isQueue)]; rfl
  have announced : announcements threads state = 0 := by
    rw [announcements, card_eq_zero, filter_eq_empty_iff]
    intro thread _
    rcases stuck.point thread with point | point <;> rw [point] <;> exact nofun
  rw [sound.counter, workload_amount workers, awake, queued, announced]
  rfl

theorem Stuck.done (stuck : Stuck n state) (sound : Sound threads n state) (workers : n ≤ threads)
    (isOpen : state.shutdown = false) {ticket : Nat} (given : ticket < state.index) :
    DoneOnce state ticket := by
  have quiescent := quiescent_of_counter sound workers isOpen (stuck.counter sound workers isOpen)
  refine quiescent.executed ticket given fun thread => ?_
  rcases stuck.point thread with point | point <;> rw [point] <;> exact nofun

end Quiescence

/-- For any number of threads and any code that queues tasks, the counter is what it counts in every
state, and no task is removed from a queue twice. Without a shutdown, nothing is queued or run when
the counter is zero. No run goes on for ever, and when no thread can go on, the counter is zero and
every task that was queued has been removed once and executed once. -/
theorem quiescence {numberOfThreads n : Nat} {callers : List Code} {state : State}
    (count : threadCount numberOfThreads = n)
    (reached : Reaches (Step n) (start n callers) state) :
    state.counter =
      awakeWorkers n state + queuedTasks n state + announcements (n + callers.length) state ∧
    (∀ ticket, removals state ticket ≤ 1) ∧
    (state.shutdown = false → state.counter = 0 → Quiescent n state) ∧
    Ends (Step n) state ∧
    (state.shutdown = false → Stuck n state →
      state.counter = 0 ∧ ∀ ticket, ticket < state.index → DoneOnce state ticket) := by
  have positive : 0 < n := by
    have := Nat.le_max_left 1 numberOfThreads
    simp only [threadCount] at count
    omega
  have sound := sound_of_reaches positive reached
  have workers : n ≤ n + callers.length := Nat.le_add_right _ _
  refine ⟨?_, removals_le_one sound, quiescent_of_counter sound workers, ?_, ?_⟩
  · rw [sound.counter, workload_amount workers]
  · exact ends_of_sound positive sound
  · intro isOpen stuck
    exact ⟨stuck.counter sound workers isOpen, fun _ => stuck.done sound workers isOpen⟩

/-- Threads go on in an order. -/
def schedule (n : Nat) (state : State) : List Nat → State
  | [] => state
  | thread :: rest =>
    match exec n state thread .go with
    | some (access, point) => schedule n (state.move thread access point) rest
    | none => schedule n state rest

theorem reaches_schedule (n : Nat) (state : State) (threads : List Nat) :
    Reaches (Step n) state (schedule n state threads) := by
  induction threads generalizing state with
  | nil => exact .refl
  | cons thread rest ih =>
    rw [schedule]
    split
    · next access point taken => exact .head ⟨thread, .go, access, point, taken, rfl⟩ (ih _)
    · exact ih _

theorem quiescence_stolen :
    Quiescent 2 (schedule 2 (start 2 [.queue (.queue .finish .finish) .finish])
      (List.replicate 4 2 ++ List.replicate 18 1 ++ List.replicate 5 0)) :=
  (quiescence (show threadCount 2 = 2 from rfl) (reaches_schedule _ _ _)).2.2.1
    (by decide) (by decide)

end Jst.Verif.TaskSystem
