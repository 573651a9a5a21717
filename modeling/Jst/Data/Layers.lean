import Mathlib.Data.List.Chain
/-!
# Layered lists

A list is layered for a relation if every element leads only to elements that come after it. Such a
list contains no element from which one could go on for ever.
-/
namespace Jst.Layers

variable {Item : Type} {leads : Item → Item → Prop}

/-- Every element of a list leads to later elements only. -/
def Layered (leads : Item → Item → Prop) : List Item → Prop
  | [] => True
  | first :: rest => (∀ next, leads first next → next ∈ rest) ∧ Layered leads rest

theorem Layered.not_endless {endless : Item → Prop}
    (onward : ∀ item, endless item → ∃ next, leads item next ∧ endless next) :
    ∀ {list : List Item}, Layered leads list → ∀ item ∈ list, ¬ endless item
  | [], _, _, member, _ => by cases member
  | first :: rest, ⟨later, layered⟩, item, member, holds => by
    cases List.mem_cons.mp member with
    | inl same =>
      subst same
      obtain ⟨next, leading, goesOn⟩ := onward item holds
      exact Layered.not_endless onward layered next (later next leading) goesOn
    | inr inside => exact Layered.not_endless onward layered item inside holds

end Jst.Layers
