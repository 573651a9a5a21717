import Mathlib.Algebra.BigOperators.Group.Finset.Basic
import Mathlib.Algebra.Order.BigOperators.Group.Finset
import Mathlib.Algebra.Ring.Int.Defs
import Mathlib.Data.Int.Order.Basic
/-!
# Totals of weights

Each of finitely many places holds a value that has a weight there. When the value at one place is
replaced, the total of the weights changes by the difference of two weights.
-/
namespace Jst.Totals

variable {Value : Type}

/-- The total weight of the values at the first places. -/
def total (places : Nat) (weight : Nat → Value → Int) (values : Nat → Value) : Int :=
  ∑ place ∈ Finset.range places, weight place (values place)

variable {places : Nat} {weight : Nat → Value → Int} {values : Nat → Value}

theorem total_update {place : Nat} (inside : place < places) (value : Value) :
    total places weight (Function.update values place value) =
      total places weight values + (weight place value - weight place (values place)) := by
  have member : place ∈ Finset.range places := Finset.mem_range.mpr inside
  have rest : ∑ other ∈ (Finset.range places).erase place,
      weight other (Function.update values place value other) =
      ∑ other ∈ (Finset.range places).erase place, weight other (values other) :=
    Finset.sum_congr rfl fun other inside' => by
      rw [Function.update_of_ne (Finset.ne_of_mem_erase inside')]
  rw [total, total, ← Finset.add_sum_erase _ _ member, ← Finset.add_sum_erase _ _ member, rest,
    Function.update_self]
  omega

theorem total_nonneg (nonneg : ∀ place value, 0 ≤ weight place value) : 0 ≤ total places weight values :=
  Finset.sum_nonneg fun _ _ => nonneg _ _

theorem total_eq_zero (zero : ∀ place, place < places → weight place (values place) = 0) :
    total places weight values = 0 :=
  Finset.sum_eq_zero fun place inside => zero place (Finset.mem_range.mp inside)

end Jst.Totals
