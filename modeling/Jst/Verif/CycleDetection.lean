import Mathlib.Data.List.Perm.Subperm
import Jst.Data.Layers
import Jst.Multithreading.AsyncMapConsumer
/-!
# The detection of cycles

The search for a cycle of callers is complete: if it finds none, the callers it knows can be listed
so that each one asked only for callers that come later. It is sound: what it returns is a chain of
calls whose last call has been made before.
-/
namespace Jst.Verif.CycleDetection

open Multithreading Layers

variable {Key : Type} [DecidableEq Key] {requests : NodeRequests Key}

/-- A caller asked for a node that is not ready. -/
def Asks (requests : NodeRequests Key) (caller dep : Key) : Prop :=
  ∃ deps, requests.lookup caller = some deps ∧ dep ∈ deps

/-- A chain of different callers. -/
structure Calls (requests : NodeRequests Key) (calls : List Key) : Prop where
  distinct : calls.Nodup
  callers : ∀ caller ∈ calls, (requests.lookup caller).isSome
  chain : calls.IsChain (Asks requests)

/-- A call order with a cycle: a chain of calls whose last call has been made before. -/
def IsCycle (requests : NodeRequests Key) (cycle : List Key) : Prop :=
  ∃ calls last, cycle = calls ++ [last] ∧ last ∈ calls ∧ calls.Nodup ∧
    calls.length ≤ requests.length ∧ cycle.IsChain (Asks requests)

variable {caller : Key}

theorem lookup_eq_some_iff_mem (distinct : (requests.map fst).Nodup)
    {deps : List Key} : requests.lookup caller = some deps ↔ (caller, deps) ∈ requests := by
  induction requests with
  | nil => simp
  | cons entry rest step =>
    obtain ⟨name, nodes⟩ := entry
    obtain ⟨fresh, distinct⟩ := nodup_cons.mp distinct
    by_cases same : caller = name
    · subst same
      have notLater : (caller, deps) ∉ rest := fun member =>
        fresh (mem_map.mpr ⟨_, member, rfl⟩)
      simp [notLater, eq_comm]
    · have unlike : (caller == name) = false := by simpa using same
      simp [List.lookup_cons, unlike, step distinct, same]

variable {calls : List Key}

theorem Calls.length_le (good : Calls requests calls) : calls.length ≤ requests.length := by
  have inside : calls ⊆ requests.map fst := by
    intro caller member
    obtain ⟨entry, listed, same⟩ := List.lookup_isSome_iff.mp (good.callers caller member)
    exact mem_map.mpr ⟨entry, listed, (eq_of_beq same).symm⟩
  simpa using (good.distinct.subperm inside).length_le

theorem Calls.isCycle (good : Calls requests calls) {dep : Key}
    (last : calls.getLast? = some caller) (asks : Asks requests caller dep)
    (before : dep ∈ calls) : IsCycle requests (calls ++ [dep]) := by
  refine ⟨calls, dep, rfl, before, good.distinct, good.length_le, ?_⟩
  refine good.chain.append (List.isChain_singleton dep) ?_
  intro left isLast right isHead
  rw [last] at isLast
  cases isLast
  cases isHead
  exact asks

theorem Calls.concat (good : Calls requests calls)
    (fresh : caller ∉ calls) (asking : (requests.lookup caller).isSome)
    (asked : ∀ last ∈ calls.getLast?, Asks requests last caller) :
    Calls requests (calls ++ [caller]) where
  distinct := by
    rw [nodup_append]
    refine ⟨good.distinct, List.nodup_singleton caller, ?_⟩
    rintro left inside right same rfl
    exact fresh (mem_singleton.mp same ▸ inside)
  callers := by
    intro other member
    cases mem_append.mp member with
    | inl inside => exact good.callers other inside
    | inr same =>
      rw [mem_singleton.mp same]
      exact asking
  chain := by
    refine good.chain.append (List.isChain_singleton caller) ?_
    intro left isLast right isHead
    cases isHead
    exact asked left isLast

/-- What a search yields: a cycle, or more callers that are known to lead to none. -/
def Yields (requests : NodeRequests Key) (found : List Key) (known : List Key) :
    Option (List Key) × List Key → Prop
  | (some cycle, _) => IsCycle requests cycle
  | (none, more) => known ⊆ more ∧ (∀ dep ∈ found, dep ∈ more) ∧ Layered (Asks requests) more

theorem visitDeps_yields (good : Calls requests calls) (last : calls.getLast? = some caller)
    (visit : List Key → Key → Option (List Key) × List Key)
    (visits : ∀ known dep, Layered (Asks requests) known → dep ∉ calls →
      Asks requests caller dep → Yields requests [dep] known (visit known dep))
    (deps : List Key) (asks : ∀ dep ∈ deps, Asks requests caller dep) (known : List Key)
    (layered : Layered (Asks requests) known) :
    Yields requests deps known (visitDeps visit calls deps known) := by
  induction deps generalizing known with
  | nil => exact ⟨List.Subset.refl known, by simp, layered⟩
  | cons dep rest step =>
    have first : Asks requests caller dep := asks dep mem_cons_self
    simp only [visitDeps]
    by_cases before : dep ∈ calls
    · rw [if_pos before]
      exact good.isCycle last first before
    · rw [if_neg before]
      have visited := visits known dep layered before first
      match result : visit known dep with
      | (some cycle, _) =>
        rw [result] at visited
        exact visited
      | (none, more) =>
        rw [result] at visited
        obtain ⟨grown, found, layered⟩ := visited
        have later := step (forall_mem_cons.mp asks).2
          more layered
        simp only
        match result' : visitDeps visit calls rest more with
        | (some cycle, _) =>
          rw [result'] at later
          exact later
        | (none, most) =>
          rw [result'] at later
          obtain ⟨grown', found', layered⟩ := later
          refine ⟨List.Subset.trans grown grown', ?_, layered⟩
          intro other member
          cases mem_cons.mp member with
          | inl same =>
            subst same
            exact grown' (found other (mem_singleton.mpr rfl))
          | inr inside => exact found' other inside

theorem detectCycleForCaller_yields {depth : Nat} {known : List Key}
    (good : Calls requests calls) (fresh : caller ∉ calls)
    (asked : ∀ last ∈ calls.getLast?, Asks requests last caller)
    (deep : requests.length < depth + calls.length) (layered : Layered (Asks requests) known) :
    Yields requests [caller] known (detectCycleForCaller requests depth calls known caller) := by
  induction depth generalizing calls known caller with
  | zero =>
    have := good.length_le
    omega
  | succ depth step =>
    simp only [detectCycleForCaller]
    by_cases before : caller ∈ known
    · rw [if_pos before]
      exact ⟨List.Subset.refl known, by simpa using before, layered⟩
    · rw [if_neg before]
      match asking : requests.lookup caller with
      | none =>
        refine ⟨List.subset_cons_self _ _, by simp, ?_, layered⟩
        rintro dep ⟨deps, found, -⟩
        rw [asking] at found
        cases found
      | some deps =>
        have longer := good.concat fresh (by rw [asking]; rfl) asked
        have visited := visitDeps_yields longer (List.getLast?_concat)
          (detectCycleForCaller requests depth (calls ++ [caller]))
          (fun known dep layered unlike asks => step longer unlike
            (by
              intro last isLast
              rw [List.getLast?_concat] at isLast
              cases isLast
              exact asks)
            (by simp only [length_append, length_singleton]; omega) layered)
          deps (fun dep member => ⟨deps, asking, member⟩) known layered
        simp only
        match result : visitDeps (detectCycleForCaller requests depth (calls ++ [caller]))
            (calls ++ [caller]) deps known with
        | (some cycle, _) =>
          rw [result] at visited
          exact visited
        | (none, more) =>
          rw [result] at visited
          obtain ⟨grown, found, layered⟩ := visited
          refine ⟨List.Subset.trans grown (List.subset_cons_self _ _), by simp, ?_, layered⟩
          rintro dep ⟨others, looked, member⟩
          rw [asking] at looked
          cases looked
          exact found dep member

theorem detectCycleFrom_yields (callers known : List Key)
    (layered : Layered (Asks requests) known) : match detectCycleFrom requests callers known with
    | some cycle => IsCycle requests cycle
    | none => ∃ more, known ⊆ more ∧ callers ⊆ more ∧ Layered (Asks requests) more := by
  induction callers generalizing known with
  | nil => exact ⟨known, List.Subset.refl known, List.nil_subset known, layered⟩
  | cons caller rest step =>
    have first : Yields requests [caller] known
        (detectCycleForCaller requests (requests.length + 1) [] known caller) :=
      detectCycleForCaller_yields ⟨nodup_nil, by simp, List.isChain_nil⟩ (by simp) (by simp)
        (by simp) layered
    simp only [detectCycleFrom]
    match result : detectCycleForCaller requests (requests.length + 1) [] known caller with
    | (some cycle, _) =>
      rw [result] at first
      exact first
    | (none, more) =>
      rw [result] at first
      obtain ⟨grown, found, layered⟩ := first
      have later := step more layered
      simp only
      match result' : detectCycleFrom requests rest more with
      | some cycle =>
        rw [result'] at later
        exact later
      | none =>
        rw [result'] at later
        obtain ⟨most, grown', covered, layered⟩ := later
        refine ⟨most, List.Subset.trans grown grown', ?_, layered⟩
        exact List.cons_subset.mpr ⟨grown' (found caller (mem_singleton.mpr rfl)), covered⟩

variable {Value : Type} (state : State Key Value)

theorem asks_getPendingRequests (caller dep : Key) : Asks state.getPendingRequests caller dep ↔
      (caller, dep) ∈ state.nodeRequests ∧ (state.nodes dep).isReady = false := by
  have distinct : (state.getPendingRequests.map fst).Nodup := by
    simpa [State.getPendingRequests, comp_def] using
      Grouping.group_nodup state.nodeRequests
  simp only [Asks, lookup_eq_some_iff_mem distinct]
  simp only [State.getPendingRequests, mem_map, Prod.mk.injEq, Prod.exists]
  constructor
  · rintro ⟨_, ⟨name, nodes, grouped, rfl, rfl⟩, member⟩
    obtain ⟨rfl, -⟩ := (Grouping.mem_group _ _ _).mp grouped
    simpa [Grouping.select] using member
  · rintro ⟨recorded, pending⟩
    have selected : dep ∈ Grouping.select caller state.nodeRequests := by
      simpa [Grouping.select] using recorded
    refine ⟨_, ⟨caller, _, (Grouping.mem_group _ _ _).mpr
      ⟨rfl, List.ne_nil_of_mem selected⟩, rfl, rfl⟩, ?_⟩
    simpa [pending] using selected

theorem detectCycle_isCycle (endless : Key → Prop) (holds : endless caller)
    (onward : ∀ caller, endless caller →
      ∃ dep, Asks state.getPendingRequests caller dep ∧ endless dep) :
    ∃ cycle, state.detectCycle = some cycle ∧ IsCycle state.getPendingRequests cycle := by
  have searched := @detectCycleFrom_yields Key _ state.getPendingRequests
    (state.getPendingRequests.map fst) [] trivial
  match result : state.detectCycle with
  | some cycle =>
    simp only [State.detectCycle] at result
    rw [result] at searched
    exact ⟨cycle, rfl, searched⟩
  | none =>
    simp only [State.detectCycle] at result
    rw [result] at searched
    obtain ⟨known, -, covered, layered⟩ := searched
    obtain ⟨dep, ⟨deps, found, -⟩, -⟩ := onward caller holds
    refine absurd holds (layered.not_endless onward caller (covered ?_))
    obtain ⟨entry, listed, same⟩ := List.lookup_isSome_iff.mp (by rw [found]; rfl)
    exact mem_map.mpr ⟨entry, listed, (eq_of_beq same).symm⟩

end Jst.Verif.CycleDetection
