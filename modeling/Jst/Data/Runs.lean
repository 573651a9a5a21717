import Mathlib.Data.Set.Card
import Mathlib.Logic.Relation
import Mathlib.Order.WellFounded
/-!
# Runs of a transition system

A system is given by the relation between a state and the next one. What holds at the start and is
kept by every step holds in every state reached; a measure that every step lowers lets every run
end.
-/
namespace Jst.Runs

variable {State : Type} {Step : State → State → Prop}

/-- A run leads from one state to the other. -/
abbrev Reaches (Step : State → State → Prop) : State → State → Prop := Relation.ReflTransGen Step

/-- No run from a state goes on for ever. -/
def Ends (Step : State → State → Prop) (start : State) : Prop :=
  Acc (fun next state => Step state next) start

/-- No step leads out of a state. -/
def Final (Step : State → State → Prop) (state : State) : Prop := ∀ next, ¬ Step state next

theorem invariant {holds : State → Prop} {start state : State} (first : holds start)
    (keeps : ∀ {state next}, holds state → Step state next → holds next)
    (run : Reaches Step start state) : holds state := by
  induction run with
  | refl => exact first
  | tail _ step before => exact keeps before step

variable {start : State}

theorem ends {holds : State → Prop} {Measure : Type} [Preorder Measure] [WellFoundedLT Measure]
    (measure : State → Measure) (first : holds start)
    (keeps : ∀ {state next}, holds state → Step state next → holds next)
    (lowers : ∀ {state next}, holds state → Step state next → measure next < measure state) :
    Ends Step start := by
  generalize bound : measure start = value
  induction value using WellFoundedLT.induction generalizing start with
  | ind value below =>
    refine Acc.intro start fun next step => ?_
    subst bound
    exact below _ (lowers first step) (keeps first step) rfl

theorem Ends.exists_final (finite : Ends Step start) :
    ∃ last, Reaches Step start last ∧ Final Step last := by
  induction finite with
  | intro state _ later =>
    by_cases goes : ∃ next, Step state next
    · obtain ⟨next, step⟩ := goes
      obtain ⟨last, run, final⟩ := later next step
      exact ⟨last, .head step run, final⟩
    · exact ⟨state, .refl, fun next step => goes ⟨next, step⟩⟩

theorem Ends.acyclic (finite : Ends Step start) : ¬ Relation.TransGen Step start start := by
  induction finite with
  | intro state _ later =>
    intro loop
    obtain ⟨next, step, back⟩ := Relation.TransGen.head'_iff.mp loop
    exact later next step (.tail' back step)

theorem ends_of_acyclic (finite : {state | ∃ next, Step state next}.Finite)
    (acyclic : ∀ state, ¬ Relation.TransGen Step state state) (start : State) : Ends Step start := by
  -- the states with a step that can still be reached become fewer
  generalize bound :
    {other | Relation.TransGen Step start other ∧ ∃ next, Step other next}.ncard = count
  induction count using Nat.strong_induction_on generalizing start with
  | h count smaller =>
    refine Acc.intro start fun next step => ?_
    by_cases goes : ∃ after, Step next after
    · refine smaller _ ?_ next rfl
      rw [← bound]
      refine Set.ncard_lt_ncard ⟨?_, fun sub => ?_⟩ (finite.subset fun _ inside => inside.2)
      · exact fun other inside => ⟨.head step inside.1, inside.2⟩
      · exact acyclic next (sub ⟨.single step, goes⟩).1
    · exact Acc.intro next fun after onward => absurd ⟨after, onward⟩ goes

end Jst.Runs
