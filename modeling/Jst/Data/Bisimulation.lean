import Mathlib.Data.Option.Basic
/-!
# Bisimulation

A deterministic transition system has a label for every state and at most one successor for every
symbol. Two states are bisimilar if some bisimulation relates them; bisimilarity is itself the
greatest bisimulation and an equivalence.
-/
namespace Jst.Bisimulation

section Successors

variable {Left Right : Type} {related : Left → Right → Prop} {left : Option Left}
  {right : Option Right}

theorem exists_right (rel : Option.Rel related left right) {next : Left} (found : left = some next) :
    ∃ other, right = some other ∧ related next other := by
  subst found
  cases rel with
  | some holds => exact ⟨_, rfl, holds⟩

theorem exists_left (rel : Option.Rel related left right) {other : Right}
    (found : right = some other) : ∃ next, left = some next ∧ related next other := by
  subst found
  cases rel with
  | some holds => exact ⟨_, rfl, holds⟩

theorem rel_of (forth : ∀ next, left = some next → ∃ other, right = some other ∧ related next other)
    (back : ∀ other, right = some other → left.isSome) : Option.Rel related left right := by
  cases left with
  | some next =>
    obtain ⟨other, found, holds⟩ := forth next rfl
    exact found ▸ .some holds
  | none =>
    cases right with
    | some other => exact absurd (back other rfl) (by simp)
    | none => exact .none

end Successors

variable {State Symbol Label : Type}

/-- A deterministic transition system. -/
structure System (State Symbol Label : Type) where
  label : State → Label
  next : State → Symbol → Option State

variable (system : System State Symbol Label)

/-- Related states look alike, and so do their successors, for ever. -/
def IsBisimulation (related : State → State → Prop) : Prop :=
  ∀ left right, related left right → system.label left = system.label right ∧
    ∀ symbol, Option.Rel related (system.next left symbol) (system.next right symbol)

/-- Some bisimulation relates the two states. -/
def Bisimilar (left right : State) : Prop :=
  ∃ related, IsBisimulation system related ∧ related left right

theorem bisimilar_isBisimulation : IsBisimulation system (Bisimilar system) := by
  rintro left right ⟨related, bisimulation, holds⟩
  obtain ⟨label, next⟩ := bisimulation left right holds
  refine ⟨label, fun symbol => ?_⟩
  have inside := next symbol
  generalize system.next left symbol = leftNext at inside
  generalize system.next right symbol = rightNext at inside
  cases inside with
  | some holds => exact .some ⟨related, bisimulation, holds⟩
  | none => exact .none

variable {system} {left right other : State}

theorem Bisimilar.refl (state : State) : Bisimilar system state state := by
  refine ⟨Eq, fun left right same => ?_, rfl⟩
  subst same
  refine ⟨rfl, fun symbol => ?_⟩
  cases system.next left symbol with
  | some next => exact .some rfl
  | none => exact .none

theorem Bisimilar.symm (holds : Bisimilar system left right) : Bisimilar system right left := by
  refine ⟨fun right left => Bisimilar system left right, fun right left holds => ?_, holds⟩
  obtain ⟨label, next⟩ := bisimilar_isBisimulation system left right holds
  refine ⟨label.symm, fun symbol => ?_⟩
  have inside := next symbol
  generalize system.next left symbol = leftNext at inside
  generalize system.next right symbol = rightNext at inside
  cases inside with
  | some holds => exact .some holds
  | none => exact .none

theorem Bisimilar.trans (first : Bisimilar system left right)
    (second : Bisimilar system right other) : Bisimilar system left other := by
  refine ⟨fun left other => ∃ right, Bisimilar system left right ∧ Bisimilar system right other,
    fun left other holds => ?_, ⟨right, first, second⟩⟩
  obtain ⟨right, first, second⟩ := holds
  obtain ⟨label, next⟩ := bisimilar_isBisimulation system left right first
  obtain ⟨label', next'⟩ := bisimilar_isBisimulation system right other second
  refine ⟨label.trans label', fun symbol => ?_⟩
  have inside := next symbol
  have inside' := next' symbol
  generalize system.next left symbol = leftNext at inside
  generalize system.next right symbol = rightNext at inside inside'
  generalize system.next other symbol = otherNext at inside'
  cases inside with
  | some holds =>
    cases inside' with
    | some holds' => exact .some ⟨_, holds, holds'⟩
  | none =>
    cases inside' with
    | none => exact .none

theorem Bisimilar.label (holds : Bisimilar system left right) :
    system.label left = system.label right :=
  (bisimilar_isBisimulation system left right holds).1

theorem Bisimilar.next (holds : Bisimilar system left right) {symbol : Symbol}
    {leftNext rightNext : State} (leftStep : system.next left symbol = some leftNext)
    (rightStep : system.next right symbol = some rightNext) :
    Bisimilar system leftNext rightNext := by
  have inside := (bisimilar_isBisimulation system left right holds).2 symbol
  rw [leftStep, rightStep] at inside
  cases inside with
  | some holds => exact holds

theorem Bisimilar.isSome (holds : Bisimilar system left right) (symbol : Symbol) :
    (system.next left symbol).isSome = (system.next right symbol).isSome := by
  have inside := (bisimilar_isBisimulation system left right holds).2 symbol
  generalize system.next left symbol = leftNext at inside
  generalize system.next right symbol = rightNext at inside
  cases inside with
  | some holds => rfl
  | none => rfl

theorem bisimilar_map {State' : Type} {system' : System State' Symbol Label} {map : State → State'}
    (label : ∀ state, system'.label (map state) = system.label state)
    (next : ∀ state symbol, system'.next (map state) symbol = (system.next state symbol).map map) :
    Bisimilar system' (map left) (map right) ↔ Bisimilar system left right := by
  constructor
  · intro alike
    refine ⟨fun left right => Bisimilar system' (map left) (map right), fun left right holds => ?_,
      alike⟩
    refine ⟨by rw [← label, ← label, holds.label], fun symbol => ?_⟩
    have inside := (bisimilar_isBisimulation system' _ _ holds).2 symbol
    rw [next, next] at inside
    generalize system.next left symbol = leftNext at inside ⊢
    generalize system.next right symbol = rightNext at inside ⊢
    cases leftNext with
    | none =>
      cases rightNext with
      | none => exact .none
      | some _ => cases inside
    | some _ =>
      cases rightNext with
      | none => cases inside
      | some _ =>
        cases inside with
        | some holds => exact .some holds
  · intro alike
    refine ⟨fun first second => ∃ left right, map left = first ∧ map right = second ∧
      Bisimilar system left right, ?_, left, right, rfl, rfl, alike⟩
    rintro _ _ ⟨left, right, rfl, rfl, holds⟩
    refine ⟨by rw [label, label, holds.label], fun symbol => ?_⟩
    rw [next, next]
    have inside := (bisimilar_isBisimulation system _ _ holds).2 symbol
    generalize system.next left symbol = leftNext at inside
    generalize system.next right symbol = rightNext at inside
    cases inside with
    | some holds => exact .some ⟨_, _, rfl, rfl, holds⟩
    | none => exact .none

end Jst.Bisimulation
