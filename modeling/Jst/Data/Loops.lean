import Mathlib.Data.List.Forall2
import Mathlib.Data.List.Nodup
/-!
# Loops that may fail

A loop over a list whose body may throw is `List.mapM` or `List.foldlM` in `Option`. A `mapM`
succeeds exactly if every call does, and then the results stand in the order of the items.
-/
namespace Jst.Loops

variable {Item Result State : Type}

variable {list : List Item} {f : Item → Option Result} {results : List Result}

theorem mapM_congr {g : Item → Option Result} (agree : ∀ item ∈ list, f item = g item) :
    list.mapM f = list.mapM g := by
  induction list with
  | nil => rfl
  | cons item rest step =>
    rw [List.mapM_cons, List.mapM_cons, agree item List.mem_cons_self,
      step fun other member => agree other (List.mem_cons_of_mem _ member)]

theorem foldlM_congr {f g : State → Item → Option State}
    (agree : ∀ state, ∀ item ∈ list, f state item = g state item) (start : State) :
    list.foldlM f start = list.foldlM g start := by
  induction list generalizing start with
  | nil => rfl
  | cons item rest step =>
    rw [List.foldlM_cons, List.foldlM_cons, agree start item List.mem_cons_self]
    have tail : ∀ state, rest.foldlM f state = rest.foldlM g state :=
      step fun state other member => agree state other (List.mem_cons_of_mem _ member)
    rw [funext tail]

theorem mapM_eq_some :
    list.mapM f = some results ↔ List.Forall₂ (fun item result => f item = some result) list
      results := by
  induction list generalizing results with
  | nil =>
    rw [List.forall₂_nil_left_iff, List.mapM_nil]
    constructor
    · intro same
      cases same
      rfl
    · intro same
      rw [same]
      rfl
  | cons item rest step =>
    rw [List.mapM_cons, List.forall₂_cons_left_iff]
    constructor
    · intro success
      simp only [Option.bind_eq_bind, Option.bind_eq_some_iff, Option.pure_def,
        Option.some.injEq] at success
      obtain ⟨result, called, others, remaining, same⟩ := success
      exact ⟨result, others, called, step.mp remaining, same.symm⟩
    · rintro ⟨result, others, called, remaining, rfl⟩
      rw [called, step.mpr remaining]
      rfl

theorem exists_of_mem_mapM {result : Result} (success : list.mapM f = some results)
    (member : result ∈ results) : ∃ item ∈ list, f item = some result := by
  have calls := mapM_eq_some.mp success
  induction calls generalizing result with
  | nil => cases member
  | cons called remaining step =>
    cases List.mem_cons.mp member with
    | inl here => exact ⟨_, List.mem_cons_self, here ▸ called⟩
    | inr later =>
      obtain ⟨item, inside, same⟩ := step (mapM_eq_some.mpr remaining) later
      exact ⟨item, List.mem_cons_of_mem _ inside, same⟩

theorem mem_of_mapM {item : Item} (success : list.mapM f = some results) (member : item ∈ list) :
    ∃ result ∈ results, f item = some result := by
  have calls := mapM_eq_some.mp success
  induction calls with
  | nil => cases member
  | cons called remaining step =>
    cases List.mem_cons.mp member with
    | inl here => exact ⟨_, List.mem_cons_self, here ▸ called⟩
    | inr later =>
      obtain ⟨result, inside, same⟩ := step (mapM_eq_some.mpr remaining) later
      exact ⟨result, List.mem_cons_of_mem _ inside, same⟩

theorem filterMap_of_mapM (success : list.mapM f = some results) : list.filterMap f = results := by
  have calls := mapM_eq_some.mp success
  induction calls with
  | nil => rfl
  | cons called remaining step =>
    rw [List.filterMap_cons_some called, step (mapM_eq_some.mpr remaining)]

theorem mapM_some (list : List Item) (f : Item → Result) :
    list.mapM (fun item => some (f item)) = some (list.map f) := by
  rw [mapM_eq_some, List.forall₂_map_right_iff, List.forall₂_same]
  exact fun _ _ => rfl

theorem mapM_eq_ok {Error : Type} {f : Item → Except Error Result} :
    list.mapM f = .ok results ↔ List.Forall₂ (fun item result => f item = .ok result) list
      results := by
  induction list generalizing results with
  | nil =>
    rw [List.forall₂_nil_left_iff, List.mapM_nil]
    constructor
    · intro same
      cases same
      rfl
    · rintro rfl
      rfl
  | cons item rest step =>
    rw [List.mapM_cons, List.forall₂_cons_left_iff]
    cases called : f item with
    | error failure =>
      constructor
      · intro same
        cases same
      · rintro ⟨_, _, absurd', -⟩
        cases absurd'
    | ok result =>
      cases remaining : rest.mapM f with
      | error failure =>
        constructor
        · intro same
          cases same
        · rintro ⟨_, others, -, calls, -⟩
          rw [← step, remaining] at calls
          cases calls
      | ok others =>
        constructor
        · intro same
          cases same
          exact ⟨result, others, rfl, step.mp remaining, rfl⟩
        · rintro ⟨_, others', same, calls, rfl⟩
          cases same
          rw [← step, remaining] at calls
          cases calls
          rfl

theorem mapM_bind_mapM {Final : Type} (list : List Item) (f : Item → Option Result)
    (g : Result → Option Final) :
    (list.mapM f).bind (fun results => results.mapM g) = list.mapM fun item => (f item).bind g := by
  induction list with
  | nil => rfl
  | cons item rest step =>
    rw [List.mapM_cons, List.mapM_cons, ← step]
    cases f item with
    | none => rfl
    | some result =>
      cases rest.mapM f with
      | none => cases called : g result <;> simp [called]
      | some results => simp

theorem mapM_eq_none : list.mapM f = none ↔ ∃ item ∈ list, f item = none := by
  induction list with
  | nil => simp
  | cons item rest step =>
    rw [List.mapM_cons, List.exists_mem_cons_iff, ← step]
    cases f item with
    | none => simp
    | some result => cases rest.mapM f <;> simp

theorem exists_mapM (each : ∀ item ∈ list, ∃ result, f item = some result) :
    ∃ results, list.mapM f = some results := by
  cases called : list.mapM f with
  | some results => exact ⟨results, rfl⟩
  | none =>
    obtain ⟨item, member, failed⟩ := mapM_eq_none.mp called
    obtain ⟨result, success⟩ := each item member
    exact nomatch failed.symm.trans success

theorem foldlM_reaches {f : State → Item → Option State} {invariant : State → Prop}
    {below : State → State → Prop} {reached : Item → State → Prop}
    (refl : ∀ state, below state state)
    (trans : ∀ {state next last}, below state next → below next last → below state last)
    (stays : ∀ {item state next}, reached item state → below state next → reached item next)
    (step : ∀ state, ∀ item ∈ list, invariant state →
      ∃ next, f state item = some next ∧ invariant next ∧ below state next ∧ reached item next)
    {start : State} (holds : invariant start) :
    ∃ last, list.foldlM f start = some last ∧ invariant last ∧ below start last ∧
      ∀ item ∈ list, reached item last := by
  induction list generalizing start with
  | nil => exact ⟨start, rfl, holds, refl start, by simp⟩
  | cons item rest ih =>
    obtain ⟨next, called, kept, up, here⟩ := step start item List.mem_cons_self holds
    obtain ⟨last, ran, final, further, others⟩ :=
      ih (fun state other member => step state other (List.mem_cons_of_mem _ member)) kept
    refine ⟨last, ?_, final, trans up further, ?_⟩
    · rw [List.foldlM_cons, called]
      exact ran
    · intro other member
      cases List.mem_cons.mp member with
      | inl same => exact same ▸ stays here further
      | inr later => exact others other later

theorem countP_lt {item : Item} {before after : Item → Bool}
    (fewer : ∀ item, after item = true → before item = true) (member : item ∈ list)
    (was : before item = true) (is : after item = false) :
    list.countP after < list.countP before := by
  induction list with
  | nil => cases member
  | cons first rest step =>
    have tail : rest.countP after ≤ rest.countP before :=
      List.countP_mono_left fun item _ => fewer item
    rw [List.countP_cons, List.countP_cons]
    cases List.mem_cons.mp member with
    | inl same =>
      subst same
      rw [was, is, if_pos rfl, if_neg Bool.false_ne_true]
      omega
    | inr later =>
      have inner := step later
      have here : (if after first = true then 1 else 0) ≤ if before first = true then 1 else 0 := by
        cases present : after first with
        | false => simp
        | true => simp [fewer first present]
      omega

theorem find?_of_nodup {Key : Type} [DecidableEq Key] {key : Item → Key}
    (distinct : (list.map key).Nodup) {item : Item} (member : item ∈ list) :
    list.find? (fun other => key other = key item) = some item := by
  cases found : list.find? fun other => key other = key item with
  | none => exact absurd (decide_eq_true rfl) (List.find?_eq_none.mp found item member)
  | some other =>
    have same : key other = key item :=
      of_decide_eq_true (@List.find?_some _ (fun other => decide (key other = key item)) _ _ found)
    rw [List.inj_on_of_nodup_map distinct (List.mem_of_find?_eq_some found) member same]

end Jst.Loops
