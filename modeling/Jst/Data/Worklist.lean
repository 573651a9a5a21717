import Mathlib.Data.Set.Card
import Mathlib.Data.Set.Finite.Lattice
import Mathlib.Data.Set.Finite.List
import Mathlib.Logic.Relation
/-!
# Work lists

Items are taken from a queue; one that has not been seen is expanded, which adds further items to
the queue. Once the queue is empty, exactly the items that can be reached have been seen. As the
expansion of an item need not return, fuel bounds both; the loop returns if all expansions do and
there are finitely many items.
-/
namespace Jst.Worklist

/-- Why there is no result. -/
inductive Stop (Error : Type) where
  | outOfFuel
  | thrown (error : Error)

variable {Item Note Error : Type} [DecidableEq Item]

/-- Expand all items of a queue that have not been seen, and what they lead to. -/
def run (expand : Nat → Item → Except (Stop Error) (List Item × List Note)) :
    Nat → List Item → List Item → List Note → Except (Stop Error) (List Item × List Note)
  | _, [], seen, notes => .ok (seen, notes)
  | 0, _ :: _, _, _ => .error .outOfFuel
  | fuel + 1, item :: queue, seen, notes =>
    if item ∈ seen then run expand fuel queue seen notes
    else
      match expand fuel item with
      | .error stop => .error stop
      | .ok (next, noted) => run expand fuel (queue ++ next) (seen ++ [item]) (notes ++ noted)

/-- What expanding an item gives, and for which items it returns. -/
structure Expands (expand : Nat → Item → Except (Stop Error) (List Item × List Note))
    (Next : Item → Item → Prop) (Notes : Item → Note → Prop) (Fine : Item → Prop) : Prop where
  sound : ∀ {fuel item next noted}, expand fuel item = .ok (next, noted) →
    Fine item ∧ (∀ other, other ∈ next ↔ Next item other) ∧ ∀ note, note ∈ noted ↔ Notes item note
  complete : ∀ {item}, Fine item → ∃ bound result, ∀ fuel, bound ≤ fuel →
    expand fuel item = .ok result

variable {expand : Nat → Item → Except (Stop Error) (List Item × List Note)}
variable {Next : Item → Item → Prop} {Notes : Item → Note → Prop} {Fine : Item → Prop}
variable {start item : Item} {queue seen next : List Item} {notes noted : List Note}

/-- The items that can be reached. -/
abbrev Reach (Next : Item → Item → Prop) : Item → Item → Prop := Relation.ReflTransGen Next

/-- What holds while the loop runs. -/
structure Working (Next : Item → Item → Prop) (Notes : Item → Note → Prop) (Fine : Item → Prop)
    (start : Item) (queue seen : List Item) (notes : List Note) : Prop where
  once : seen.Nodup
  started : start ∈ seen ∨ start ∈ queue
  onward : ∀ item ∈ seen, ∀ other, Next item other → other ∈ seen ∨ other ∈ queue
  reached : ∀ item, item ∈ seen ∨ item ∈ queue → Reach Next start item
  noted : ∀ note, note ∈ notes ↔ ∃ item ∈ seen, Notes item note
  fine : ∀ item ∈ seen, Fine item

section
omit [DecidableEq Item]

theorem Working.begin (start : Item) : Working Next Notes Fine start [start] [] [] where
  once := .nil
  started := .inr List.mem_cons_self
  onward _ inside := absurd inside List.not_mem_nil
  reached item inside := by
    obtain inside | inside := inside
    · exact absurd inside List.not_mem_nil
    · exact List.mem_singleton.mp inside ▸ .refl
  noted note := by simp
  fine _ inside := absurd inside List.not_mem_nil

theorem Working.skip (working : Working Next Notes Fine start (item :: queue) seen notes)
    (inside : item ∈ seen) : Working Next Notes Fine start queue seen notes := by
  have rest : ∀ other, other ∈ seen ∨ other ∈ item :: queue → other ∈ seen ∨ other ∈ queue := by
    intro other either
    obtain before | queued := either
    · exact .inl before
    · obtain rfl | later := List.mem_cons.mp queued
      · exact .inl inside
      · exact .inr later
  exact { working with
    started := rest start working.started
    onward := fun other before following leads =>
      rest following (working.onward other before following leads)
    reached := fun other either => working.reached other
      (either.imp_right (List.mem_cons_of_mem item)) }

theorem Working.expanded (working : Working Next Notes Fine start (item :: queue) seen notes)
    (outside : item ∉ seen) (fine : Fine item) (leads : ∀ other, other ∈ next ↔ Next item other)
    (noting : ∀ note, note ∈ noted ↔ Notes item note) :
    Working Next Notes Fine start (queue ++ next) (seen ++ [item]) (notes ++ noted) := by
  have rest : ∀ other, other ∈ seen ∨ other ∈ item :: queue →
      other ∈ seen ++ [item] ∨ other ∈ queue ++ next := by
    intro other either
    obtain before | queued := either
    · exact .inl (List.mem_append_left _ before)
    · obtain rfl | later := List.mem_cons.mp queued
      · exact .inl (List.mem_append_right _ List.mem_cons_self)
      · exact .inr (List.mem_append_left _ later)
  have here : Reach Next start item := working.reached item (.inr List.mem_cons_self)
  constructor
  · exact working.once.append (List.nodup_singleton _) (by simpa using outside)
  · exact rest start working.started
  · intro other inside following leading
    obtain before | same := List.mem_append.mp inside
    · exact rest following (working.onward other before following leading)
    · rw [List.mem_singleton.mp same] at leading
      exact .inr (List.mem_append_right _ ((leads following).mpr leading))
  · intro other either
    obtain inside | inside := either
    · obtain before | same := List.mem_append.mp inside
      · exact working.reached other (.inl before)
      · exact List.mem_singleton.mp same ▸ here
    · obtain later | new := List.mem_append.mp inside
      · exact working.reached other (.inr (List.mem_cons_of_mem _ later))
      · exact here.tail ((leads other).mp new)
  · intro note
    simp only [List.mem_append, working.noted, noting, List.mem_singleton]
    constructor
    · rintro (⟨other, inside, holds⟩ | holds)
      · exact ⟨other, .inl inside, holds⟩
      · exact ⟨item, .inr rfl, holds⟩
    · rintro ⟨other, inside | rfl, holds⟩
      · exact .inl ⟨other, inside, holds⟩
      · exact .inr holds
  · intro other inside
    obtain before | same := List.mem_append.mp inside
    · exact working.fine other before
    · exact List.mem_singleton.mp same ▸ fine

theorem Working.seen_iff (working : Working Next Notes Fine start [] seen notes) (item : Item) :
    item ∈ seen ↔ Reach Next start item := by
  have onward : ∀ {other}, other ∈ seen ∨ other ∈ ([] : List Item) → other ∈ seen :=
    fun either => either.resolve_right List.not_mem_nil
  constructor
  · exact fun inside => working.reached item (.inl inside)
  · intro reach
    induction reach with
    | refl => exact onward working.started
    | tail _ leads before => exact onward (working.onward _ before _ leads)

end

section

variable (expands : Expands expand Next Notes Fine)
include expands

theorem working_of_run {fuel : Nat} {result : List Item × List Note}
    (working : Working Next Notes Fine start queue seen notes)
    (returned : run expand fuel queue seen notes = .ok result) :
    Working Next Notes Fine start [] result.1 result.2 := by
  induction fuel generalizing queue seen notes with
  | zero =>
    cases queue with
    | nil => cases returned; exact working
    | cons item queue => cases returned
  | succ fuel step =>
    cases queue with
    | nil => cases returned; exact working
    | cons item queue =>
      rw [run] at returned
      split at returned
      · next inside => exact step (working.skip inside) returned
      · next outside =>
        split at returned
        · cases returned
        · next next noted expanded =>
          obtain ⟨fine, leads, noting⟩ := expands.sound expanded
          exact step (working.expanded outside fine leads noting) returned

theorem run_returns (finite : {item | Reach Next start item}.Finite)
    (fine : ∀ item, Reach Next start item → Fine item)
    (working : Working Next Notes Fine start queue seen notes) :
    ∃ bound result, ∀ fuel, bound ≤ fuel → run expand fuel queue seen notes = .ok result := by
  -- what has not been seen becomes less, or the queue does
  generalize count : ({item | Reach Next start item} \ {item | item ∈ seen}).ncard = unseen
  induction unseen using Nat.strong_induction_on generalizing queue seen notes with
  | h unseen fewer =>
    induction queue with
    | nil => exact ⟨0, (seen, notes), fun fuel _ => by cases fuel <;> rfl⟩
    | cons item queue shorter =>
      by_cases inside : item ∈ seen
      · obtain ⟨bound, result, returns⟩ := shorter (working.skip inside)
        refine ⟨bound + 1, result, fun fuel enough => ?_⟩
        obtain ⟨fuel, rfl⟩ := Nat.exists_eq_add_of_le' (Nat.lt_of_lt_of_le (Nat.succ_pos _) enough)
        rw [run, if_pos inside]
        exact returns fuel (Nat.le_of_succ_le_succ enough)
      · have reached := working.reached item (.inr List.mem_cons_self)
        obtain ⟨first, ⟨next, noted⟩, expanded⟩ := expands.complete (fine item reached)
        obtain ⟨good, leads, noting⟩ := expands.sound (expanded first le_rfl)
        have less : ({item | Reach Next start item} \ {other | other ∈ seen ++ [item]}).ncard <
            unseen := by
          rw [← count]
          refine Set.ncard_lt_ncard ⟨?_, fun sub => ?_⟩ (finite.subset Set.sdiff_subset)
          · exact fun other both => ⟨both.1, fun before => both.2 (List.mem_append_left _ before)⟩
          · exact (sub ⟨reached, inside⟩).2 (List.mem_append_right _ List.mem_cons_self)
        obtain ⟨second, result, returns⟩ := fewer _ less
          (working.expanded inside good leads noting) rfl
        refine ⟨max first second + 1, result, fun fuel enough => ?_⟩
        obtain ⟨fuel, rfl⟩ := Nat.exists_eq_add_of_le' (Nat.lt_of_lt_of_le (Nat.succ_pos _) enough)
        have bounds := max_le_iff.mp (Nat.le_of_succ_le_succ enough)
        rw [run, if_neg inside, expanded fuel bounds.1]
        exact returns fuel bounds.2

theorem run_spec {fuel : Nat} (returned : run expand fuel [start] [] [] = .ok (seen, notes)) :
    seen.Nodup ∧ (∀ item, item ∈ seen ↔ Reach Next start item) ∧
      (∀ note, note ∈ notes ↔ ∃ item, Reach Next start item ∧ Notes item note) ∧
      ∀ item, Reach Next start item → Fine item := by
  have working := working_of_run expands (Working.begin start) returned
  have all := working.seen_iff
  refine ⟨working.once, all, fun note => ?_, fun item reach => ?_⟩
  · rw [working.noted]
    simp only [all]
  · exact working.fine item ((all item).mpr reach)

omit [DecidableEq Item] in
theorem reach_finite (leading : {item | ∃ other, Next item other}.Finite)
    (fine : ∀ item, Reach Next start item → Fine item) : {item | Reach Next start item}.Finite := by
  have following : ∀ item ∈ {item | Reach Next start item ∧ ∃ other, Next item other},
      {other | Next item other}.Finite := by
    rintro item ⟨reach, -⟩
    obtain ⟨bound, ⟨next, noted⟩, expanded⟩ := expands.complete (fine item reach)
    obtain ⟨-, leads, -⟩ := expands.sound (expanded bound le_rfl)
    exact next.finite_toSet.subset fun other leading => (leads other).mpr leading
  have inner : {item | Reach Next start item ∧ ∃ other, Next item other}.Finite :=
    leading.subset fun item both => both.2
  refine ((inner.biUnion following).union (Set.finite_singleton start)).subset fun item reach => ?_
  obtain rfl | ⟨before, reach, leads⟩ := reach.cases_tail
  · exact .inr rfl
  · exact .inl (Set.mem_biUnion ⟨reach, item, leads⟩ leads)

theorem run_returns_iff (leading : {item | ∃ other, Next item other}.Finite) :
    (∃ fuel result, run expand fuel [start] [] [] = .ok result) ↔
      ∀ item, Reach Next start item → Fine item := by
  constructor
  · rintro ⟨fuel, ⟨seen, notes⟩, returned⟩
    exact (run_spec expands returned).2.2.2
  · intro fine
    obtain ⟨bound, result, returns⟩ := run_returns expands (reach_finite expands leading fine) fine
      (Working.begin start)
    exact ⟨bound, result, returns bound le_rfl⟩

end

end Jst.Worklist
