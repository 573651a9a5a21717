import Mathlib.Data.List.Perm.Basic
import Mathlib.Data.List.Sort
import Mathlib.Data.Prod.Lex
import Mathlib.Order.Basic
import Mathlib.Order.Defs.LinearOrder
/-!
# Sorting and removing duplicates

A sort function is known by what it promises: for a strict weak order the result has the same
elements and is sorted, and the order of equivalent elements is left open. If a comparison is one of
keys in a linear order, the keys of a sorted list without duplicates are determined by which keys
there are.
-/
namespace Jst.Sorting

/-- A comparison that may be sorted by. -/
structure StrictWeak {α : Type} (less : α → α → Bool) : Prop where
  irrefl : ∀ element, less element element = false
  trans : ∀ first second third, less first second = true → less second third = true →
    less first third = true
  split : ∀ first second other, less first second = true →
    less first other = true ∨ less other second = true

/-- A sort function. -/
structure Sorter where
  sort : {α : Type} → (α → α → Bool) → List α → List α
  perm : ∀ {α : Type} {less : α → α → Bool}, StrictWeak less → ∀ list, (sort less list).Perm list
  sorted : ∀ {α : Type} {less : α → α → Bool}, StrictWeak less → ∀ list,
    (sort less list).Pairwise fun first second => less second first = false

variable {α β K : Type}

/-- What remains behind an element that is kept. -/
def uniqueAfter (same : α → α → Bool) (kept : α) : List α → List α
  | [] => []
  | next :: rest =>
    if same kept next then uniqueAfter same kept rest else next :: uniqueAfter same next rest

/-- Of neighbours that are the same, keep the first. -/
def unique (same : α → α → Bool) : List α → List α
  | [] => []
  | first :: rest => first :: uniqueAfter same first rest

variable [LinearOrder K] {key : α → K} {less same : α → α → Bool}

/-- A comparison is one of keys. -/
def Compares (key : α → K) (less : α → α → Bool) : Prop :=
  ∀ first second, less first second = true ↔ key first < key second

/-- What is the same has the same key. -/
def Identifies (key : α → K) (same : α → α → Bool) : Prop :=
  ∀ first second, same first second = true ↔ key first = key second

/-- The keys of a list are strictly ascending. -/
abbrev Ascends (key : α → K) (list : List α) : Prop :=
  list.Pairwise fun first second => key first < key second

theorem Compares.strictWeak (compares : Compares key less) : StrictWeak less where
  irrefl element := by
    rw [Bool.eq_false_iff, ne_eq, compares]
    exact lt_irrefl _
  trans first second third before after := by
    rw [compares] at before after ⊢
    exact before.trans after
  split first second other before := by
    rw [compares] at before ⊢
    rw [compares]
    exact (lt_or_ge (key first) (key other)).imp_right fun notLess => notLess.trans_lt before

theorem Sorter.ordered (sorting : Sorter) (compares : Compares key less) (list : List α) :
    (sorting.sort less list).Pairwise fun first second => key first ≤ key second := by
  refine (sorting.sorted compares.strictWeak list).imp fun {first second} notLess => ?_
  rw [Bool.eq_false_iff, ne_eq, compares] at notLess
  exact not_lt.mp notLess

theorem Compares.lex {L : Type} [LinearOrder L] {nextKey : α → L} {nextLess : α → α → Bool}
    (compares : Compares key less) (nextCompares : Compares nextKey nextLess) :
    Compares (fun element => toLex (key element, nextKey element)) fun first second =>
      if less first second then true else if less second first then false
      else nextLess first second := by
  intro first second
  have before := compares first second
  have after := compares second first
  have next := nextCompares first second
  rw [Prod.Lex.toLex_lt_toLex]
  dsimp only
  split
  · next smaller => exact ⟨fun _ => .inl (before.mp smaller), fun _ => rfl⟩
  · next notSmaller =>
    have notBefore := mt before.mpr notSmaller
    split
    · next larger =>
      have behind := after.mp larger
      constructor
      · exact fun absurd' => absurd absurd' Bool.false_ne_true
      · rintro (smaller | ⟨equal, -⟩)
        · exact absurd smaller notBefore
        · exact absurd equal behind.ne'
    · next notLarger =>
      have equal := le_antisymm (not_lt.mp (mt after.mpr notLarger)) (not_lt.mp notBefore)
      rw [next]
      exact ⟨fun smaller => .inr ⟨equal, smaller⟩, fun either => either.elim
        (fun smaller => absurd smaller notBefore) And.right⟩

omit [LinearOrder K] in
theorem Identifies.lex {L : Type} {nextKey : α → L} {nextSame : α → α → Bool}
    (identifies : Identifies key same) (nextIdentifies : Identifies nextKey nextSame) :
    Identifies (fun element => toLex (key element, nextKey element)) fun first second =>
      same first second && nextSame first second := by
  intro first second
  rw [Bool.and_eq_true, identifies, nextIdentifies, toLex_inj, Prod.mk.injEq]

theorem uniqueAfter_spec (identifies : Identifies key same) {list : List α} {kept : α}
    (ordered : (kept :: list).Pairwise fun first second => key first ≤ key second) :
    Ascends key (kept :: uniqueAfter same kept list) ∧
      (∀ element ∈ uniqueAfter same kept list, element ∈ list) ∧
      ∀ element ∈ list, key element ∈ (kept :: uniqueAfter same kept list).map key := by
  induction list generalizing kept with
  | nil => exact ⟨List.pairwise_singleton _ _, nofun, nofun⟩
  | cons next rest ih =>
    obtain ⟨first, behind⟩ := List.pairwise_cons.mp ordered
    rw [uniqueAfter]
    split
    · next equal =>
      have sameKey := (identifies kept next).mp equal
      obtain ⟨ascends, inside, all⟩ := ih (List.pairwise_cons.mpr
        ⟨fun other member => first other (List.mem_cons_of_mem _ member),
          (List.pairwise_cons.mp behind).2⟩)
      refine ⟨ascends, fun element member => List.mem_cons_of_mem _ (inside element member), ?_⟩
      exact List.forall_mem_cons.mpr ⟨sameKey ▸ List.mem_cons_self, all⟩
    · next different =>
      have smaller : key kept < key next := by
        refine lt_of_le_of_ne (first next List.mem_cons_self) fun equal => ?_
        exact different ((identifies kept next).mpr equal)
      obtain ⟨ascends, inside, all⟩ := ih behind
      refine ⟨List.pairwise_cons.mpr ⟨?_, ascends⟩, ?_, ?_⟩
      · refine List.forall_mem_cons.mpr ⟨smaller, fun element member => ?_⟩
        exact smaller.trans ((List.pairwise_cons.mp ascends).1 element member)
      · exact List.forall_mem_cons.mpr ⟨List.mem_cons_self, fun element member =>
          List.mem_cons_of_mem _ (inside element member)⟩
      · refine List.forall_mem_cons.mpr ⟨?_, fun element member => ?_⟩
        · exact List.mem_cons_of_mem _ List.mem_cons_self
        · exact List.mem_cons_of_mem _ (all element member)

theorem Sorter.unique_spec (sorting : Sorter) (compares : Compares key less)
    (identifies : Identifies key same) (list : List α) :
    Ascends key (unique same (sorting.sort less list)) ∧
      (∀ element ∈ unique same (sorting.sort less list), element ∈ list) ∧
      ∀ other, other ∈ (unique same (sorting.sort less list)).map key ↔ other ∈ list.map key := by
  have ordered := sorting.ordered compares list
  have kept := sorting.perm compares.strictWeak list
  suffices spec : ∀ sorted : List α,
      (sorted.Pairwise fun first second => key first ≤ key second) →
      Ascends key (unique same sorted) ∧ (∀ element ∈ unique same sorted, element ∈ sorted) ∧
        ∀ element ∈ sorted, key element ∈ (unique same sorted).map key by
    obtain ⟨ascends, inside, all⟩ := spec _ ordered
    refine ⟨ascends, fun element member => kept.mem_iff.mp (inside element member), fun other => ?_⟩
    constructor
    · intro member
      obtain ⟨element, found, rfl⟩ := List.mem_map.mp member
      exact List.mem_map.mpr ⟨element, kept.mem_iff.mp (inside element found), rfl⟩
    · intro member
      obtain ⟨element, found, rfl⟩ := List.mem_map.mp member
      exact all element (kept.mem_iff.mpr found)
  intro sorted isOrdered
  cases sorted with
  | nil => exact ⟨.nil, nofun, nofun⟩
  | cons first rest =>
    obtain ⟨ascends, inside, all⟩ := uniqueAfter_spec identifies isOrdered
    refine ⟨ascends, ?_, ?_⟩
    · exact List.forall_mem_cons.mpr ⟨List.mem_cons_self, fun element member =>
        List.mem_cons_of_mem _ (inside element member)⟩
    · exact List.forall_mem_cons.mpr ⟨List.mem_cons_self, all⟩

theorem Sorter.ascends (sorting : Sorter) (compares : Compares key less) {list : List α}
    (once : (list.map key).Nodup) : Ascends key (sorting.sort less list) := by
  have kept := (sorting.perm compares.strictWeak list).map key
  have distinct := List.pairwise_map.mp (kept.nodup_iff.mpr once)
  exact ((sorting.ordered compares list).and distinct).imp fun both => lt_of_le_of_ne both.1 both.2

theorem Ascends.keys_eq {list : List α} {other : List β} {otherKey : β → K}
    (ascends : Ascends key list) (otherAscends : Ascends otherKey other)
    (sameKeys : ∀ name, name ∈ list.map key ↔ name ∈ other.map otherKey) :
    list.map key = other.map otherKey := by
  have left : (list.map key).Pairwise (· < ·) := List.pairwise_map.mpr ascends
  have right : (other.map otherKey).Pairwise (· < ·) := List.pairwise_map.mpr otherAscends
  have nodup : ∀ {keys : List K}, keys.Pairwise (· < ·) → keys.Nodup :=
    fun sorted => sorted.imp fun less => less.ne
  have perm := (List.perm_ext_iff_of_nodup (nodup left) (nodup right)).mpr sameKeys
  exact perm.eq_of_pairwise (fun _ _ _ _ less more => absurd less more.asymm) left right

omit [LinearOrder K] in
theorem map_eq_of_keys {γ : Type} {list : List α} {other : List β} {otherKey : β → K} {f : α → γ}
    {g : β → γ} (keys : list.map key = other.map otherKey)
    (agree : ∀ element ∈ list, ∀ element' ∈ other, key element = otherKey element' →
      f element = g element') : list.map f = other.map g := by
  induction list generalizing other with
  | nil => rw [List.map_eq_nil_iff.mp keys.symm]; rfl
  | cons head rest ih =>
    cases other with
    | nil => cases keys
    | cons head' rest' =>
      obtain ⟨first, others⟩ := List.cons.inj keys
      have here := agree head List.mem_cons_self head' List.mem_cons_self first
      have more := ih others fun element inside element' inside' =>
        agree element (List.mem_cons_of_mem _ inside) element' (List.mem_cons_of_mem _ inside')
      rw [List.map_cons, List.map_cons, here, more]

/-- Insertion sort. -/
def insertionSorter : Sorter where
  sort less list := list.insertionSort fun first second => less second first = false
  perm _ list := List.perm_insertionSort _ list
  sorted {α less} weak list := by
    let notBehind : α → α → Prop := fun first second => less second first = false
    have total : Std.Total notBehind := by
      refine ⟨fun first second => ?_⟩
      cases before : less first second with
      | false => exact .inr before
      | true =>
        refine .inl (Bool.eq_false_iff.mpr fun after => ?_)
        have loop := weak.trans first second first before after
        rw [weak.irrefl] at loop
        cases loop
    have transitive : IsTrans α notBehind := by
      refine ⟨fun first second third near far => Bool.eq_false_iff.mpr fun before => ?_⟩
      obtain behind | behind := weak.split third first second before
      · exact absurd (far.symm.trans behind) Bool.false_ne_true
      · exact absurd (near.symm.trans behind) Bool.false_ne_true
    exact List.pairwise_insertionSort _ list

section Distribution

variable {rank : α → Nat} {count : Nat} {list : List α}

/-- The elements of every rank below a count, in the order of the ranks. -/
def distribute (rank : α → Nat) (count : Nat) (list : List α) : List α :=
  (List.range count).flatMap fun index => list.filter fun element => rank element = index

section
omit [LinearOrder K]

theorem distribute_succ (rank : α → Nat) (count : Nat) (list : List α) :
    distribute rank (count + 1) list =
      distribute rank count list ++ list.filter fun element => rank element = count := by
  simp [distribute, List.range_succ]

theorem distribute_perm_filter (rank : α → Nat) (count : Nat) (list : List α) :
    (distribute rank count list).Perm (list.filter fun element => rank element < count) := by
  induction count with
  | zero => simp [distribute]
  | succ count step =>
    rw [distribute_succ]
    have smaller : (list.filter fun element => rank element < count + 1).filter
        (fun element => rank element < count) = list.filter fun element => rank element < count := by
      rw [List.filter_filter]
      exact List.filter_congr fun element _ => by simp; omega
    have last : (list.filter fun element => rank element < count + 1).filter
        (fun element => !decide (rank element < count)) =
          list.filter fun element => rank element = count := by
      rw [List.filter_filter]
      exact List.filter_congr fun element _ => by
        rw [Bool.eq_iff_iff]
        simp
        omega
    have parts := List.filter_append_perm (fun element => decide (rank element < count))
      (list.filter fun element => rank element < count + 1)
    rw [smaller, last] at parts
    exact (step.append_right _).trans parts

theorem distribute_perm (bounded : ∀ element ∈ list, rank element < count) :
    (distribute rank count list).Perm list := by
  have all : list.filter (fun element => rank element < count) = list :=
    List.filter_eq_self.mpr fun element inside => decide_eq_true (bounded element inside)
  have perm := distribute_perm_filter rank count list
  rwa [all] at perm

theorem distribute_sorted (rank : α → Nat) (count : Nat) (list : List α) :
    (distribute rank count list).Pairwise fun first second => rank first ≤ rank second := by
  induction count with
  | zero => exact .nil
  | succ count step =>
    rw [distribute_succ, List.pairwise_append]
    refine ⟨step, ?_, ?_⟩
    · refine List.pairwise_of_forall_mem_list fun first inside second other => ?_
      have here := of_decide_eq_true (List.mem_filter.mp inside).2
      have there := of_decide_eq_true (List.mem_filter.mp other).2
      omega
    · intro first inside second other
      have inside := (distribute_perm_filter rank count list).mem_iff.mp inside
      have here := of_decide_eq_true (List.mem_filter.mp inside).2
      have there := of_decide_eq_true (List.mem_filter.mp other).2
      omega

theorem filter_distribute (bounded : ∀ element ∈ list, rank element < count) (index : Nat) :
    (distribute rank count list).filter (fun element => rank element = index) =
      list.filter fun element => rank element = index := by
  have parts : ∀ count, (distribute rank count list).filter (fun element => rank element = index) =
      if index < count then list.filter fun element => rank element = index else [] := by
    intro count
    induction count with
    | zero => rfl
    | succ count step =>
      rw [distribute_succ, List.filter_append, step, List.filter_filter]
      by_cases same : count = index
      · subst same
        simp
      · have none : list.filter (fun element => decide (rank element = index) &&
            decide (rank element = count)) = [] := by
          rw [List.filter_eq_nil_iff]
          intro element _
          simp only [Bool.and_eq_true, decide_eq_true_eq, not_and]
          omega
        rw [none, List.append_nil]
        congr 1
        exact propext ⟨fun _ => by omega, fun _ => by omega⟩
  rw [parts]
  split
  · rfl
  · next large =>
    refine (List.filter_eq_nil_iff.mpr fun element inside => ?_).symm
    have small := bounded element inside
    simp only [decide_eq_true_eq]
    omega

end

end Distribution

end Jst.Sorting
