import Jst.Data.Runs
import Jst.Verif.TaskSystem.Accounts
/-!
# Invariants of the task system

The counter is the number of workers that do not wait, of queued tasks and of announced ones. Every
number of a task is in one place, and until a shutdown, no worker waits while there is a task in its
queue that nobody is about to notify it of.
-/
namespace Jst.Verif.TaskSystem

open Jst.Multithreading.TaskSystem Totals Runs

/-- A worker waits in `pop`. -/
def waiting : Point → Bool
  | .blocked | .awake => true
  | _ => false

/-- A push has announced its task. -/
def isAnnounced : Point → Bool
  | .announced _ _ _ => true
  | _ => false

/-- The number of the task that is about to be queued. -/
def pending : Point → Option Nat
  | .tryPush idx _ _ _ | .announced idx _ _ => some idx
  | _ => none

/-- `Shutdown` closes the queues. -/
def isClosing : Point → Bool
  | .closing _ _ | .closed _ _ => true
  | _ => false

/-- The code that is run. -/
def frame? : Point → Option Frame
  | .body frame | .tryPush _ _ _ frame | .announced _ _ frame | .notify _ frame | .closing _ frame
  | .closed _ frame => some frame
  | _ => none

/-- The number of the task that is run. -/
def running : Point → Option Nat
  | .got ticket _ => some ticket
  | point => (frame? point).bind (·.ticket)

/-- The workload: workers that do not wait, and queued and announced tasks. -/
def workload (n : Nat) : Measure where
  place thread point :=
    (if thread < n ∧ waiting point = false then 1 else 0) + if isAnnounced point then 1 else 0
  entry := fun _ => 1

/-- How often a number is about to be queued or is queued. -/
def queuedAs (ticket : Nat) : Measure where
  place := fun _ point => if pending point = some ticket then 1 else 0
  entry := fun entry => if entry.1 = ticket then 1 else 0

/-- How often the task with a number is run. -/
def runAs (ticket : Nat) : Measure where
  place := fun _ point => if running point = some ticket then 1 else 0
  entry := fun _ => 0

/-- How often a number was removed from a queue. -/
def removals (state : State) (ticket : Nat) : Nat := (state.removed.map Prod.snd).count ticket

/-- Workers run tasks and callers their own code; a worker is finished behind a shutdown only. -/
def Fits (n : Nat) (shutdown : Bool) (thread : Nat) (point : Point) : Prop :=
  if thread < n then
    (point = .finished → shutdown = true) ∧ ∀ frame, frame? point = some frame → frame.ticket.isSome
  else point = .finished ∨ ∃ rest, frame? point = some ⟨none, rest⟩

section Local

variable {n : Nat} {state : State} {thread : Nat} {place point : Point} {access : Access}

/-- What an access adds to the counter. -/
def counted : Access → Int
  | .take _ _ | .block => -1
  | .wake | .tryPush _ _ _ | .announce => 1
  | _ => 0

theorem counter_access (state : State) (thread : Nat) (access : Access) :
    (state.access thread access).counter = state.counter + counted access := by
  cases access with
  | notify queue =>
    simp only [State.access, counted]
    split <;> simp
  | _ => simp [State.access, counted] <;> omega

theorem change_take (measure : Measure) {queue ticket : Nat} {task : Code} {rest : List (Nat × Code)}
    (front : state.queues queue = (ticket, task) :: rest) :
    measure.change state (.take queue ticket) = -measure.entry (ticket, task) := by
  simp [Measure.change, front]

theorem change_notify (measure : Measure) {queue : Nat}
    (same : ∀ thread, measure.place thread .awake = measure.place thread .blocked) :
    measure.change state (.notify queue) = 0 := by
  simp only [Measure.change, same]
  split <;> omega

theorem workload_move (worker : thread < n ∨ (frame? place).isSome) 
    (moves : Moves n state thread place access point) :
    (workload n).place thread point - (workload n).place thread place +
      (workload n).change state access = counted access := by
  have notified : ∀ queue, (workload n).change state (.notify queue) = 0 :=
    fun queue => change_notify _ fun _ => rfl
  cases moves with
  | steal _ _ _ front | popFirst _ _ front | popWoken _ front =>
    rw [change_take _ front]
    simp [workload, waiting, isAnnounced, counted]
  | notify | notifyAll =>
    rw [notified]
    simp [workload, waiting, isAnnounced, counted]
  | block | startle _ | wake _ | sleepOn _ =>
    have isWorker : thread < n := worker.resolve_right (by simp [frame?])
    simp [workload, waiting, isAnnounced, counted, Measure.change, isWorker]
  | _ => simp [workload, waiting, isAnnounced, counted, Measure.change]

/-- What an access adds to the numbers that were given. -/
def drawn (state : State) (ticket : Nat) : Access → Int
  | .draw => if state.index = ticket then 1 else 0
  | .take _ removed => if removed = ticket then -1 else 0
  | _ => 0

theorem queuedAs_move (ticket : Nat) (moves : Moves n state thread place access point) :
    (queuedAs ticket).place thread point - (queuedAs ticket).place thread place +
      (queuedAs ticket).change state access = drawn state ticket access := by
  have notified : ∀ queue, (queuedAs ticket).change state (.notify queue) = 0 :=
    fun queue => change_notify _ fun _ => rfl
  cases moves with
  | steal _ _ _ front | popFirst _ _ front | popWoken _ front =>
    rw [change_take _ front]
    simp only [queuedAs, pending, drawn]
    grind
  | notify | notifyAll =>
    rw [notified]
    simp [queuedAs, pending, drawn]
  | _ => simp [queuedAs, pending, drawn, Measure.change]

/-- What an access adds to the tasks that are run. -/
def started (ticket : Nat) : Access → Int
  | .take _ removed => if removed = ticket then 1 else 0
  | .complete executed => if executed = ticket then -1 else 0
  | _ => 0

theorem runAs_move (ticket : Nat) (open' : state.shutdown = false)
    (moves : Moves n state thread place access point) :
    (runAs ticket).place thread point - (runAs ticket).place thread place +
      (runAs ticket).change state access = started ticket access := by
  have notified : ∀ queue, (runAs ticket).change state (.notify queue) = 0 :=
    fun queue => change_notify _ fun _ => rfl
  cases moves with
  | steal _ _ _ front | popFirst _ _ front | popWoken _ front =>
    rw [change_take _ front]
    simp [runAs, running, frame?, started]
  | notify | notifyAll =>
    rw [notified]
    grind [runAs, running, frame?, started]
  | drop shut =>
    rw [shut] at open'
    cases open'
  | complete =>
    simp only [runAs, running, frame?, started, Measure.change]
    grind
  | tryPush _ _ _ | push _ _ =>
    simp only [Measure.change]
    grind [runAs, running, frame?, started]
  | _ => grind [runAs, running, frame?, started, Measure.change]

theorem fits_move (fits : Fits n state.shutdown thread place) (closed : ∀ queue, state.done queue = true → state.shutdown = true)
    (woken : state.shutdown = false → place = .woken → state.queues (thread % n) ≠ [])
    (moves : Moves n state thread place access point) : Fits n state.shutdown thread point := by
  unfold Fits at fits ⊢
  split at fits
  · next isWorker =>
    rw [if_pos isWorker]
    cases moves with
    | leave shut | drop shut => simp [frame?, shut]
    | popDone isDone => simp [frame?, closed _ isDone]
    | wokenDone empty =>
      refine ⟨fun _ => ?_, by simp [frame?]⟩
      by_contra isOpen
      exact woken (by simpa using isOpen) rfl empty
    | returned => exact absurd (fits.2 _ rfl) (by simp)
    | startTask => simp [frame?]
    | call | shut | retry _ | tryPush _ _ _ | announce _ | push _ _ | notify | close _ | allClosed
    | notifyAll => simpa [frame?] using fits
    | _ => simp [frame?]
  · next isCaller =>
    rw [if_neg isCaller]
    cases moves with
    | complete => simp [frame?] at fits
    | returned => exact .inl rfl
    | _ => simp_all [frame?]

end Local

/-- What holds in every state. -/
structure Sound (threads n : Nat) (state : State) : Prop where
  within : Within threads state
  fits : ∀ thread, Fits n state.shutdown thread (state.points thread)
  closed : ∀ queue, state.done queue = true → state.shutdown = true
  closing : ∀ thread, isClosing (state.points thread) = true → state.shutdown = true
  counter : state.counter = (workload n).amount threads n state
  numbers : ∀ ticket, (queuedAs ticket).amount threads n state + removals state ticket =
    if ticket < state.index then 1 else 0
  tasks : state.shutdown = false → ∀ ticket,
    (runAs ticket).amount threads n state + state.executed.count ticket = removals state ticket
  roused : state.shutdown = false → ∀ queue, state.points queue = .blocked →
    state.queues queue ≠ [] → ∃ thread frame, state.points thread = .notify queue frame
  woken : state.shutdown = false → ∀ queue, queue < n → state.points queue = .woken →
    state.queues queue ≠ []

section Moves

variable {threads n : Nat} {state : State} {thread : Nat} {access : Access} {point : Point}

theorem points_move {other : Nat} (differ : other ≠ thread) :
    (state.move thread access point).points other =
      if access = .notify other ∧ state.points other = .blocked then .awake else state.points other := by
  show Function.update (state.access thread access).points thread point other = _
  rw [Function.update_of_ne differ]
  cases access with
  | notify queue =>
    simp only [State.access, Access.notify.injEq]
    by_cases same : queue = other
    · subst same
      split <;> simp_all
    · have unlike : ¬(queue = other ∧ state.points other = .blocked) := fun both => same both.1
      rw [if_neg unlike]
      split
      · exact Function.update_of_ne (Ne.symm same) _ _
      · rfl
  | _ => simp [State.access]

theorem points_move_self : (state.move thread access point).points thread = point :=
  Function.update_self _ _ _

theorem open_of_move (isOpen : (state.move thread access point).shutdown = false) :
    state.shutdown = false := by
  cases access with
  | notify queue =>
    simp only [State.move, State.access] at isOpen
    split at isOpen <;> exact isOpen
  | shutdown => cases isOpen
  | _ => exact isOpen

theorem queues_move (queue : Nat) : (state.move thread access point).queues queue =
      match access with
      | .take other _ => if queue = other then (state.queues queue).tail else state.queues queue
      | .tryPush other ticket task | .push other ticket task =>
        if queue = other then state.queues queue ++ [(ticket, task)] else state.queues queue
      | _ => state.queues queue := by
  cases access with
  | take other ticket | tryPush other ticket task | push other ticket task =>
    simp only [State.move, State.access]
    by_cases same : queue = other
    · subst same
      rw [Function.update_self, if_pos rfl]
    · rw [Function.update_of_ne same, if_neg same]
  | notify other =>
    simp only [State.move, State.access]
    split <;> rfl
  | _ => rfl

theorem worker_of_fits {shutdown : Bool} {place : Point} (fits : Fits n shutdown thread place)
    (inRun : frame? place = none) (goesOn : place ≠ .finished) : thread < n := by
  unfold Fits at fits
  split at fits
  · assumption
  · rcases fits with finished | ⟨rest, code⟩
    · exact absurd finished goesOn
    · rw [inRun] at code
      cases code

section

variable (sound : Sound threads n state)
  (moves : Moves n state thread (state.points thread) access point)
  (isOpen : state.shutdown = false) (queue : Nat)
include sound moves isOpen queue

theorem roused_move (waits : (state.move thread access point).points queue = .blocked)
    (some' : (state.move thread access point).queues queue ≠ []) :
    ∃ other frame, (state.move thread access point).points other = .notify queue frame := by
  rw [queues_move] at some'
  by_cases self : queue = thread
  · -- A worker starts to wait only if its queue is empty.
    subst self
    rw [points_move_self] at waits
    have inRun := sound.fits queue
    generalize state.points queue = place at moves inRun
    subst waits
    cases moves with
    | block empty | sleepOn empty =>
      rw [Nat.mod_eq_of_lt (worker_of_fits inRun rfl (by simp))] at empty
      exact absurd empty some'
  · rw [points_move self] at waits
    split at waits
    · cases waits
    · next notNotified =>
      have unnotified : access ≠ .notify queue := fun same => notNotified ⟨same, waits⟩
      by_cases empty : state.queues queue = []
      · -- The task is new, and the thread that added it is about to notify.
        refine ⟨thread, ?_⟩
        rw [points_move_self]
        generalize state.points thread = place at moves
        cases moves with
        | tryPush _ _ _ | push _ _ =>
          simp only [empty] at some'
          split at some'
          · next same => exact ⟨_, by rw [same]⟩
          · exact absurd rfl some'
        | _ => simp [empty] at some'
      · obtain ⟨other, frame, stands⟩ := sound.roused isOpen queue waits empty
        have differ : other ≠ thread := by
          rintro rfl
          rw [stands] at moves
          cases moves
          exact unnotified rfl
        refine ⟨other, frame, ?_⟩
        rw [points_move differ, stands, if_neg (by simp)]

theorem woken_move (isQueue : queue < n)
    (woken : (state.move thread access point).points queue = .woken) :
    (state.move thread access point).queues queue ≠ [] := by
  rw [queues_move]
  have still : ∀ other, state.done other = false := fun other => by
    cases isDone : state.done other with
    | false => rfl
    | true =>
      rw [sound.closed other isDone] at isOpen
      cases isOpen
  by_cases self : queue = thread
  · subst self
    rw [points_move_self] at woken
    generalize state.points queue = place at moves
    subst woken
    cases moves with
    | startle some' | wake some' =>
      rw [Nat.mod_eq_of_lt isQueue, still] at some'
      simpa using some'
  · rw [points_move self] at woken
    split at woken
    · cases woken
    · have before := sound.woken isOpen queue isQueue woken
      have fits := sound.fits thread
      have locked : state.held queue = true := by simp [State.held, woken]
      generalize state.points thread = place at moves fits
      cases moves with
      | steal _ _ free _ =>
        simp only
        rw [if_neg]
        · exact before
        · rintro rfl
          rw [locked] at free
          cases free
      | popFirst isQueue' _ _ | popWoken isQueue' _ =>
        simp only
        rw [if_neg]
        · exact before
        · rw [isQueue', Nat.mod_eq_of_lt (worker_of_fits fits rfl (by simp))]
          exact self
      | tryPush _ _ _ | push _ _ =>
        simp only
        split
        · simp
        · exact before
      | _ => exact before

end

theorem drawn_access (state : State) (thread : Nat) (access : Access) (ticket : Nat) :
    drawn state ticket access + removals (state.access thread access) ticket =
      removals state ticket + ((if ticket < (state.access thread access).index then 1 else 0) -
        if ticket < state.index then 1 else 0) := by
  cases access with
  | take queue removed =>
    simp only [drawn, removals, State.access, List.map_cons, List.count_cons]
    grind
  | draw =>
    simp only [drawn, removals, State.access]
    grind
  | notify queue =>
    simp only [drawn, removals, State.access]
    split <;> simp
  | _ =>
    simp only [drawn, removals, State.access]
    omega

theorem started_access (state : State) (thread : Nat) (access : Access) (ticket : Nat) :
    started ticket access + (state.access thread access).executed.count ticket =
      state.executed.count ticket +
        (removals (state.access thread access) ticket - removals state ticket : Int) := by
  cases access with
  | take queue removed =>
    simp only [started, removals, State.access, List.map_cons, List.count_cons]
    grind
  | complete executed =>
    simp only [started, removals, State.access, List.count_cons]
    grind
  | notify queue =>
    simp only [started, removals, State.access]
    split <;> simp
  | _ => simp [started, removals, State.access]

theorem Fits.mono {shutdown later : Bool} {place : Point} (fits : Fits n shutdown thread place)
    (stays : shutdown = true → later = true) : Fits n later thread place := by
  unfold Fits at fits ⊢
  split
  · next isWorker =>
    rw [if_pos isWorker] at fits
    exact ⟨fun finished => stays (fits.1 finished), fits.2⟩
  · next isCaller =>
    rw [if_neg isCaller] at fits
    exact fits

theorem shutdown_move (shut : state.shutdown = true) :
    (state.move thread access point).shutdown = true := by
  by_contra isOpen
  rw [open_of_move (by simpa using isOpen)] at shut
  cases shut

theorem Sound.move (sound : Sound threads n state) (positive : 0 < n)
    (moves : Moves n state thread (state.points thread) access point) :
    Sound threads n (state.move thread access point) where
  within other outside := by
    have differ : other ≠ thread := by
      have inside := moves.inside sound.within
      omega
    rw [points_move differ, sound.within other outside, if_neg (by simp)]
  fits other := by
    by_cases self : other = thread
    · subst self
      rw [points_move_self]
      refine (fits_move (sound.fits other) sound.closed (fun isOpen woken => ?_) moves).mono shutdown_move
      have worker := worker_of_fits (sound.fits other) (by rw [woken]; rfl) (by simp [woken])
      rw [Nat.mod_eq_of_lt worker]
      exact sound.woken isOpen other worker woken
    · rw [points_move self]
      split
      · next notified =>
        have fits := sound.fits other
        have worker := worker_of_fits fits (by rw [notified.2]; rfl) (by simp [notified.2])
        unfold Fits
        rw [if_pos worker]
        simp [frame?]
      · exact (sound.fits other).mono shutdown_move
  closed queue isDone := by
    by_cases before : state.done queue = true
    · exact shutdown_move (sound.closed queue before)
    · have closing := sound.closing thread
      generalize state.points thread = place at moves closing
      cases moves with
      | close => exact closing rfl
      | notify | notifyAll =>
        simp only [State.move, State.access] at isDone
        split at isDone
        · exact absurd isDone before
        · exact absurd isDone before
      | _ => exact absurd isDone before
  closing other closes := by
    by_cases self : other = thread
    · subst self
      rw [points_move_self] at closes
      have closing := sound.closing other
      generalize state.points other = place at moves closing
      cases moves with
      | shut => rfl
      | close | notifyAll => exact shutdown_move (closing rfl)
      | leave _ | enter | miss _ | steal _ _ _ _ | giveUp | popFirst _ _ _ | popDone _ | block _
      | startle _ | wake _ | sleepOn _ | popWoken _ _ | wokenDone _ | drop _ | startTask | call
      | complete | returned | retry _ | tryPush _ _ _ | announce _ | push _ _ | notify | allClosed =>
        cases closes
    · rw [points_move self] at closes
      split at closes
      · cases closes
      · exact shutdown_move (sound.closing other closes)
  counter := by
    have worker : thread < n ∨ (frame? (state.points thread)).isSome := by
      have fits := sound.fits thread
      unfold Fits at fits
      split at fits
      · exact .inl (by assumption)
      · rcases fits with finished | ⟨rest, code⟩
        · rw [finished] at moves
          cases moves
        · exact .inr (by rw [code]; rfl)
    have changed := workload_move worker moves
    rw [amount_move _ positive sound.within moves, ← sound.counter]
    show (state.access thread access).counter = _
    rw [counter_access]
    omega
  numbers ticket := by
    have changed := queuedAs_move ticket moves
    have before := sound.numbers ticket
    have recorded := drawn_access state thread access ticket
    rw [amount_move _ positive sound.within moves]
    show _ + (removals (state.access thread access) ticket : Int) =
      if ticket < (state.access thread access).index then 1 else 0
    omega
  tasks isOpen ticket := by
    have isOpen' := open_of_move isOpen
    have changed := runAs_move ticket isOpen' moves
    have before := sound.tasks isOpen' ticket
    have recorded := started_access state thread access ticket
    rw [amount_move _ positive sound.within moves]
    show _ + ((state.access thread access).executed.count ticket : Int) =
      removals (state.access thread access) ticket
    omega
  roused isOpen := roused_move sound moves (open_of_move isOpen)
  woken isOpen := woken_move sound moves (open_of_move isOpen)

end Moves

end Jst.Verif.TaskSystem
