import Mathlib.Order.Defs.Unbundled
/-!
# Programs that may be stopped

A program asks its surroundings for one outcome after the other and works on a state. It stops where
there are no more outcomes, so the states in which it ends for all lists of outcomes are the states
it passes through. A contract says what holds between the first state and each of these, and what
holds once the program has returned. `Returns` says how many outcomes are enough for that.
-/
namespace Jst.Interruptible

variable {count : Nat}

/-- Why a program has not returned. -/
inductive Stop where
  | interrupted
  | failed
deriving DecidableEq

/-- A program: given outcomes and a state, what it returns with the outcomes that are left, and the
last state. -/
def Program (Outcome State Result : Type) : Type :=
  List Outcome → State → Except Stop (Result × List Outcome) × State

variable {Outcome State Result Final : Type}

namespace Program

/-- Return at once. -/
protected def pure (result : Result) : Program Outcome State Result :=
  fun outcomes state => (.ok (result, outcomes), state)

/-- One program after the other. -/
protected def bind (program : Program Outcome State Result) (next : Result → Program Outcome State Final) :
    Program Outcome State Final := fun outcomes state =>
  match program outcomes state with
  | (.ok (result, outcomes), state) => next result outcomes state
  | (.error stop, state) => (.error stop, state)

instance : Monad (Program Outcome State) where
  pure := Program.pure
  bind := Program.bind

/-- Give up. -/
def fail : Program Outcome State Result := fun _ state => (.error .failed, state)

/-- Read the state. -/
def read : Program Outcome State State := fun outcomes state => (.ok (state, outcomes), state)

/-- Replace the state. -/
def write (state : State) : Program Outcome State Unit := fun outcomes _ => (.ok ((), outcomes), state)

/-- Ask for an outcome. -/
def ask : Program Outcome State Outcome := fun outcomes state =>
  match outcomes with
  | [] => (.error .interrupted, state)
  | outcome :: outcomes => (.ok (outcome, outcomes), state)

end Program

open Program

/-- The program, started in `state` with possible outcomes, is always in a state that is related to
it, and what it returns is fine in its last state. -/
def Meets (possible : Outcome → Prop) (program : Program Outcome State Result) (state : State)
    (always : State → Prop) (after : Result → State → Prop) : Prop :=
  ∀ outcomes, (∀ outcome ∈ outcomes, possible outcome) →
    always (program outcomes state).2 ∧
    ∀ result rest, (program outcomes state).1 = .ok (result, rest) →
      (∀ outcome ∈ rest, possible outcome) ∧ after result (program outcomes state).2

variable {possible : Outcome → Prop} {state : State} {always : State → Prop}
  {after : Result → State → Prop}

theorem meets_pure {result : Result} (here : always state) (fine : after result state) :
    Meets possible (Pure.pure result) state always after := by
  intro outcomes allowed
  refine ⟨here, fun other rest same => ?_⟩
  cases same
  exact ⟨allowed, fine⟩

theorem meets_fail (here : always state) :
    Meets possible (fail : Program Outcome State Result) state always after :=
  fun _ _ => ⟨here, fun _ _ same => nomatch same⟩

variable {program : Program Outcome State Result}

variable {next : Result → Program Outcome State Final}

theorem meets_bind {between : Result → State → Prop}
    {after : Final → State → Prop} (first : Meets possible program state always between)
    (second : ∀ result middle, always middle → between result middle →
      Meets possible (next result) middle always after) :
    Meets possible (program >>= next) state always after := by
  intro outcomes allowed
  obtain ⟨here, returns⟩ := first outcomes allowed
  show always (Program.bind program next outcomes state).2 ∧ ∀ result rest,
    (Program.bind program next outcomes state).1 = _ → _ ∧ after result
      (Program.bind program next outcomes state).2
  unfold Program.bind
  generalize program outcomes state = ran at here returns
  obtain ⟨result, middle⟩ := ran
  cases result with
  | error stop => exact ⟨here, fun _ _ same => nomatch same⟩
  | ok result =>
    obtain ⟨left, fine⟩ := returns result.1 result.2 rfl
    exact second result.1 middle here fine result.2 left

theorem meets_read {next : State → Program Outcome State Final} {after : Final → State → Prop}
    (rest : Meets possible (next state) state always after) :
    Meets possible (read >>= next) state always after := rest

theorem meets_write {next : Unit → Program Outcome State Final} {after : Final → State → Prop}
    {there : State} (rest : Meets possible (next ()) there always after) :
    Meets possible (write there >>= next) state always after := rest

theorem meets_ask {next : Outcome → Program Outcome State Final} {after : Final → State → Prop}
    (here : always state)
    (rest : ∀ outcome, possible outcome → Meets possible (next outcome) state always after) :
    Meets possible (ask >>= next) state always after := by
  intro outcomes allowed
  cases outcomes with
  | nil => exact ⟨here, fun _ _ same => nomatch same⟩
  | cons outcome outcomes =>
    exact rest outcome (allowed outcome List.mem_cons_self) outcomes fun later member =>
      allowed later (List.mem_cons_of_mem _ member)

theorem Meets.mono {always' : State → Prop} {after' : Result → State → Prop}
    (meets : Meets possible program state always after)
    (whenever : ∀ other, always other → always' other)
    (finally' : ∀ result other, after result other → after' result other) :
    Meets possible program state always' after' := by
  intro outcomes allowed
  obtain ⟨here, returns⟩ := meets outcomes allowed
  exact ⟨whenever _ here, fun result rest same =>
    ⟨(returns result rest same).1, finally' _ _ (returns result rest same).2⟩⟩

/-! ## Programs that return -/

/-- From every state, the program returns and uses at most so many outcomes, if there are so many.
-/
def Returns (count : Nat) (program : Program Outcome State Result) : Prop :=
  ∀ outcomes state, count ≤ outcomes.length → ∃ result rest,
    (program outcomes state).1 = .ok (result, rest) ∧ outcomes.length ≤ rest.length + count

theorem Returns.mono {more : Nat} (returns : Returns count program) (enough : count ≤ more) :
    Returns more program := by
  intro outcomes state given
  obtain ⟨result, rest, returned, used⟩ := returns outcomes state (Nat.le_trans enough given)
  exact ⟨result, rest, returned, by omega⟩

theorem returns_pure (count : Nat) (result : Result) :
    Returns count (Pure.pure result : Program Outcome State Result) :=
  fun outcomes _ _ => ⟨result, outcomes, rfl, Nat.le_add_right _ _⟩

theorem returns_bind {first second : Nat}
    (front : Returns first program) (back : ∀ result, Returns second (next result)) :
    Returns (first + second) (program >>= next) := by
  intro outcomes state given
  obtain ⟨result, left, returned, used⟩ := front outcomes state (by omega)
  show ∃ final rest, (Program.bind program next outcomes state).1 = _ ∧ _
  unfold Program.bind
  generalize program outcomes state = ran at returned
  obtain ⟨answer, middle⟩ := ran
  subst returned
  obtain ⟨final, rest, returned', used'⟩ := back result left middle (by omega)
  exact ⟨final, rest, returned', by omega⟩

theorem returns_read {next : State → Program Outcome State Final}
    (rest : ∀ state, Returns count (next state)) : Returns count (read >>= next) :=
  fun outcomes state given => rest state outcomes state given

theorem returns_write {next : Unit → Program Outcome State Final} {there : State}
    (rest : Returns count (next ())) : Returns count (write there >>= next) :=
  fun outcomes _ given => rest outcomes there given

theorem returns_ask {next : Outcome → Program Outcome State Final}
    (rest : ∀ outcome, Returns count (next outcome)) : Returns (count + 1) (ask >>= next) := by
  intro outcomes state given
  cases outcomes with
  | nil => cases given
  | cons outcome outcomes =>
    obtain ⟨result, left, returned, used⟩ :=
      rest outcome outcomes state (Nat.le_of_succ_le_succ given)
    exact ⟨result, left, returned, by rw [List.length_cons]; omega⟩

end Jst.Interruptible
