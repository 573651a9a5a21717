import Jst.Data.Runs
import Jst.Remote.Capabilities
/-!
# Batch limits that are learned

A limit that is lowered is smaller than the one it replaces, and no limit is below the lower bound
unless the server announced it. But a thread that waits for its first answer stores the limit of the
server when the answer arrives, even if a smaller one was learned meanwhile. Up to such a store, a
cached limit never grows.
-/
namespace Jst.Verif.CapabilityLimits

open Jst.Remote Jst.Remote.CapabilitiesCache Runs

/-- The server has announced a batch size for an instance. -/
def Announced (answers : List (Str × Answer)) (instanceName : Str) (size : Nat) : Prop :=
  ∃ response cache, (instanceName, Answer.response response) ∈ answers ∧
    response.cacheCapabilities = some cache ∧ toSize cache.maxBatchTotalSizeBytes = size

/-- What holds of the limits at any time. -/
structure Bounded (state : ClientState) : Prop where
  cached : ∀ instanceName result, state.capabilities instanceName = some result →
    MessageLimits.minBatchTransferSize ≤ result.maxBatchTransferSize ∨
      Announced state.answers instanceName result.maxBatchTransferSize
  lowered : ∀ reduction ∈ state.reductions, reduction.returned < reduction.replaced

/-- No limit that is cached in a state has grown in a later one. -/
def Shrunk (state later : ClientState) : Prop :=
  ∀ instanceName result, state.capabilities instanceName = some result →
    ∃ result', later.capabilities instanceName = some result' ∧
      result'.maxBatchTransferSize ≤ result.maxBatchTransferSize

/-- A thread does not store the answer to a query over a smaller limit. -/
def careful (state : ClientState) (thread : Nat) : Bool :=
  match state.threads thread with
  | .store instanceName _ result =>
    match state.capabilities instanceName with
    | some cached => result.maxBatchTransferSize ≤ cached.maxBatchTransferSize
    | none => true
  | _ => true

/-- A step in which no answer is stored over a smaller limit. -/
def CarefulStep (state next : ClientState) : Prop :=
  ∃ thread event, exec state thread event = some next ∧ careful state thread = true

section Steps

variable {state next : ClientState} {thread : Nat} {event : Event}

/-- What a step does before its thread moves to a point. -/
inductive Effect (state : ClientState) (thread : Nat) : ClientState → Point → Prop where
  | same {point : Point} (plain : ∀ instanceName caller result,
      point ≠ .store instanceName caller result) (isCareful : careful state thread = true) :
    Effect state thread state point
  | answered {instanceName : Str} {answer : Answer} {point : Point}
      (isCareful : careful state thread = true)
      (about : ∀ name other result, point = .store name other result →
        name = instanceName ∧ result = parse answer.response?) :
    Effect state thread { state with answers := (instanceName, answer) :: state.answers } point
  | stored {instanceName : Str} {caller : Caller} {result : CapabilitiesCache.Capabilities}
      (point : state.threads thread = .store instanceName caller result) :
    Effect state thread { state with
      capabilities := update state.capabilities instanceName (some result) }
      (caller.next instanceName)
  | lowered {instanceName : Str} {newLimit : Nat} {result : CapabilitiesCache.Capabilities}
      (point : state.threads thread = .lower instanceName newLimit)
      (low : lowered (state.capabilities instanceName) newLimit = some result) :
    Effect state thread { state with
      capabilities := update state.capabilities instanceName (some result)
      reductions := ⟨instanceName, ((state.capabilities instanceName).getD {}).maxBatchTransferSize,
        result.maxBatchTransferSize⟩ :: state.reductions } .idle

theorem next_plain (name : Str) (caller : Caller) (instanceName : Str) (other : Caller)
    (result : CapabilitiesCache.Capabilities) :
    caller.next name ≠ .store instanceName other result := by
  cases caller <;> simp [Caller.next]

theorem careful_of_plain (plain : ∀ instanceName caller result,
    state.threads thread ≠ .store instanceName caller result) : careful state thread = true := by
  unfold careful
  split
  · next instanceName caller result point => exact absurd point (plain _ _ _)
  · rfl

theorem exec_effect (taken : exec state thread event = some next) :
    ∃ changed point, Effect state thread changed point ∧ next = changed.move thread point := by
  unfold exec at taken
  cases point : state.threads thread with
  | idle =>
    have isCareful : careful state thread = true := careful_of_plain (by simp [point])
    cases event with
    | call instanceName caller =>
      simp only [point] at taken
      exact ⟨state, _, .same (by simp) isCareful, (some.inj taken).symm⟩
    | _ => simp [point] at taken
  | lookup instanceName caller =>
    have isCareful : careful state thread = true := careful_of_plain (by simp [point])
    cases event with
    | go =>
      simp only [point] at taken
      cases cached : state.capabilities instanceName with
      | some result =>
        simp only [cached] at taken
        exact ⟨state, _, .same (next_plain _ _) isCareful, (some.inj taken).symm⟩
      | none =>
        simp only [cached] at taken
        exact ⟨state, _, .same (by simp) isCareful, (some.inj taken).symm⟩
    | _ => simp [point] at taken
  | query instanceName caller =>
    have isCareful : careful state thread = true := careful_of_plain (by simp [point])
    cases event with
    | answer answer =>
      simp only [point] at taken
      split at taken
      · refine ⟨_, _, .answered isCareful ?_, (some.inj taken).symm⟩
        intro name other result about
        cases about
        exact ⟨rfl, rfl⟩
      · refine ⟨_, _, .answered isCareful ?_, (some.inj taken).symm⟩
        exact fun name other result about => absurd about (next_plain _ _ _ _ _)
    | _ => simp [point] at taken
  | store instanceName caller result =>
    cases event with
    | go =>
      simp only [point] at taken
      exact ⟨_, _, .stored point, (some.inj taken).symm⟩
    | _ => simp [point] at taken
  | lower instanceName newLimit =>
    cases event with
    | go =>
      simp only [point] at taken
      cases low : CapabilitiesCache.lowered (state.capabilities instanceName) newLimit with
      | none =>
        have isCareful : careful state thread = true := careful_of_plain (by simp [point])
        simp only [low] at taken
        exact ⟨state, _, .same (by simp) isCareful, (some.inj taken).symm⟩
      | some result =>
        simp only [low] at taken
        exact ⟨_, _, .lowered point low, (some.inj taken).symm⟩
    | _ => simp [point] at taken

theorem exec_cases (taken : exec state thread event = some next) :
    (next.capabilities = state.capabilities ∧ next.reductions = state.reductions ∧
      careful state thread = true) ∨
    (∃ instanceName caller result, state.threads thread = .store instanceName caller result ∧
      next.capabilities = update state.capabilities instanceName (some result) ∧
      next.reductions = state.reductions) ∨
    ∃ instanceName newLimit result, state.threads thread = .lower instanceName newLimit ∧
      lowered (state.capabilities instanceName) newLimit = some result ∧
      next.capabilities = update state.capabilities instanceName (some result) ∧
      next.reductions = ⟨instanceName,
        ((state.capabilities instanceName).getD {}).maxBatchTransferSize,
        result.maxBatchTransferSize⟩ :: state.reductions := by
  obtain ⟨changed, point, effect, rfl⟩ := exec_effect taken
  cases effect with
  | same _ isCareful => exact .inl ⟨rfl, rfl, isCareful⟩
  | answered isCareful _ => exact .inl ⟨rfl, rfl, isCareful⟩
  | stored storing => exact .inr (.inl ⟨_, _, _, storing, rfl, rfl⟩)
  | lowered lowering low => exact .inr (.inr ⟨_, _, _, lowering, low, rfl, rfl⟩)

theorem lowered_eq_some {cached : Option CapabilitiesCache.Capabilities} {newLimit : Nat} {result : CapabilitiesCache.Capabilities}
    (low : lowered cached newLimit = some result) :
    MessageLimits.minBatchTransferSize ≤ result.maxBatchTransferSize ∧
      result.maxBatchTransferSize < (cached.getD {}).maxBatchTransferSize := by
  unfold lowered at low
  simp only at low
  split at low
  · cases low
  · next smaller =>
    cases low
    exact ⟨Nat.le_max_right _ _, Nat.lt_of_not_le smaller⟩

theorem shrunk_iff (taken : exec state thread event = some next) :
    Shrunk state next ↔ careful state thread = true := by
  rcases exec_cases taken with ⟨same, -, isCareful⟩ | ⟨instanceName, caller, result, point, changed, -⟩ |
    ⟨instanceName, newLimit, result, point, low, changed, -⟩
  · refine ⟨fun _ => isCareful, fun _ name result cached => ⟨result, ?_, le_rfl⟩⟩
    rw [same, cached]
  · have isCareful : careful state thread = true ↔ ∀ cached, state.capabilities instanceName = some cached →
        result.maxBatchTransferSize ≤ cached.maxBatchTransferSize := by
      simp only [careful, point]
      cases cached : state.capabilities instanceName with
      | none => simp
      | some other => simp
    rw [isCareful]
    constructor
    · intro shrunk cached found
      obtain ⟨result', found', smaller⟩ := shrunk instanceName cached found
      rw [changed, update_self] at found'
      rw [some.inj found']
      exact smaller
    · intro smaller name cached found
      rw [changed]
      by_cases same : name = instanceName
      · subst same
        exact ⟨result, update_self _ _ _, smaller cached found⟩
      · exact ⟨cached, by rw [update_of_ne same, found], le_rfl⟩
  · have isCareful : careful state thread = true := by rw [careful, point]
    refine ⟨fun _ => isCareful, fun _ name cached found => ?_⟩
    rw [changed]
    by_cases same : name = instanceName
    · subst same
      have smaller := (lowered_eq_some low).2
      rw [found] at smaller
      exact ⟨result, update_self _ _ _, smaller.le⟩
    · exact ⟨cached, by rw [update_of_ne same, found], le_rfl⟩

/-- What a thread is about to store was read from an answer. -/
def Sourced (state : ClientState) : Prop :=
  ∀ thread instanceName caller result, state.threads thread = .store instanceName caller result →
    ∃ answer : Answer, (instanceName, answer) ∈ state.answers ∧ result = parse answer.response?

theorem Sourced.move (sourced : Sourced state) {point : Point}
    (plain : ∀ instanceName caller result, point ≠ .store instanceName caller result) :
    Sourced (state.move thread point) := by
  intro other instanceName caller result about
  by_cases same : other = thread
  · subst same
    simp only [ClientState.move, update_self] at about
    exact absurd about (plain _ _ _)
  · simp only [ClientState.move, update_of_ne same] at about
    exact sourced other instanceName caller result about

theorem Sourced.exec (sourced : Sourced state) (taken : exec state thread event = some next) :
    Sourced next ∧ ∀ answer ∈ state.answers, answer ∈ next.answers := by
  obtain ⟨changed, point, effect, rfl⟩ := exec_effect taken
  cases effect with
  | same plain _ => exact ⟨sourced.move plain, fun _ member => member⟩
  | @answered instanceName answer _ _ about =>
    refine ⟨fun other name caller result storing => ?_, fun _ => mem_cons_of_mem _⟩
    by_cases same : other = thread
    · subst same
      simp only [ClientState.move, update_self] at storing
      obtain ⟨rfl, rfl⟩ := about name caller result storing
      exact ⟨answer, mem_cons_self, rfl⟩
    · simp only [ClientState.move, update_of_ne same] at storing
      obtain ⟨source, member, read⟩ := sourced other name caller result storing
      exact ⟨source, mem_cons_of_mem _ member, read⟩
  | stored _ =>
    exact ⟨Sourced.move (fun other => sourced other) (next_plain _ _), fun _ member => member⟩
  | lowered _ _ =>
    exact ⟨Sourced.move (fun other => sourced other) (by simp), fun _ member => member⟩

theorem parse_bounded {answers : List (Str × Answer)} {instanceName : Str} {answer : Answer}
    (member : (instanceName, answer) ∈ answers) :
    MessageLimits.minBatchTransferSize ≤ (parse answer.response?).maxBatchTransferSize ∨
      Announced answers instanceName (parse answer.response?).maxBatchTransferSize := by
  have default : MessageLimits.minBatchTransferSize ≤ MessageLimits.maxGrpcLength := by decide
  cases answer with
  | failure isReasonableToRetry => exact .inl default
  | response response =>
    show _ ≤ parseMaxBatch response ∨ Announced answers instanceName (parseMaxBatch response)
    unfold parseMaxBatch
    cases given : response.cacheCapabilities with
    | none => exact .inl default
    | some cache =>
      simp only
      split
      · by_cases less : toSize cache.maxBatchTotalSizeBytes < MessageLimits.minBatchTransferSize
        · right
          exact ⟨response, cache, member, given, (Nat.min_eq_left (by omega)).symm⟩
        · left
          exact Nat.le_min.mpr ⟨by omega, default⟩
      · exact .inl default

theorem Bounded.exec (bounded : Bounded state) (sourced : Sourced state)
    (taken : CapabilitiesCache.exec state thread event = some next) : Bounded next := by
  have more := (sourced.exec taken).2
  have still : ∀ instanceName result, state.capabilities instanceName = some result →
      MessageLimits.minBatchTransferSize ≤ result.maxBatchTransferSize ∨
        Announced next.answers instanceName result.maxBatchTransferSize := by
    intro instanceName result cached
    cases bounded.cached instanceName result cached with
    | inl above => exact .inl above
    | inr announced =>
      obtain ⟨response, cache, member, given, size⟩ := announced
      exact .inr ⟨response, cache, more _ member, given, size⟩
  rcases exec_cases taken with ⟨same, recorded, -⟩ | ⟨instanceName, caller, result, point, changed, recorded⟩ |
    ⟨instanceName, newLimit, result, point, low, changed, recorded⟩
  · exact ⟨same ▸ still, recorded ▸ bounded.lowered⟩
  · refine ⟨fun name other cached => ?_, recorded ▸ bounded.lowered⟩
    rw [changed] at cached
    by_cases same : name = instanceName
    · subst same
      rw [update_self] at cached
      cases cached
      obtain ⟨answer, member, rfl⟩ := sourced thread name caller result point
      exact parse_bounded (more _ member)
    · rw [update_of_ne same] at cached
      exact still name other cached
  · obtain ⟨above, smaller⟩ := lowered_eq_some low
    refine ⟨fun name other cached => ?_, fun reduction member => ?_⟩
    · rw [changed] at cached
      by_cases same : name = instanceName
      · subst same
        rw [update_self] at cached
        cases cached
        exact .inl above
      · rw [update_of_ne same] at cached
        exact still name other cached
    · rw [recorded] at member
      cases mem_cons.mp member with
      | inl new =>
        rw [new]
        exact smaller
      | inr old => exact bounded.lowered reduction old

end Steps

section Runs

variable {state later : ClientState}

theorem bounded_of_reaches (reached : Reaches ClientStep .start state) : Sourced state ∧ Bounded state := by
  refine @invariant _ _ (fun state => Sourced state ∧ Bounded state) _ _ ?_ ?_ reached
  · refine ⟨fun _ _ _ _ about => ?_, fun _ _ cached => ?_, fun _ member => ?_⟩
    · cases about
    · cases cached
    · cases member
  · rintro state next ⟨sourced, bounded⟩ ⟨thread, event, taken⟩
    exact ⟨(sourced.exec taken).1, bounded.exec sourced taken⟩

theorem shrunk_of_reaches (reached : Reaches CarefulStep state later) : Shrunk state later := by
  induction reached with
  | refl => exact fun _ result cached => ⟨result, cached, le_rfl⟩
  | tail _ step before =>
    obtain ⟨thread, event, taken, isCareful⟩ := step
    intro instanceName result cached
    obtain ⟨middle, found, smaller⟩ := before instanceName result cached
    obtain ⟨last, found', smaller'⟩ := (shrunk_iff taken).mpr isCareful instanceName middle found
    exact ⟨last, found', smaller'.trans smaller⟩

/-- In every run in which no answer is stored over a smaller limit, the cached limits never grow; no
cached limit is below the lower bound unless the server announced it, and every returned limit is
smaller than the one it replaced. -/
theorem limits_shrink (state : ClientState) (reached : Reaches CarefulStep .start state) :
    Bounded state ∧ ∀ later, Reaches CarefulStep state later → Shrunk state later := by
  have plain : Reaches ClientStep .start state :=
    reached.lift id fun _ _ ⟨thread, event, taken, _⟩ => ⟨thread, event, taken⟩
  exact ⟨(bounded_of_reaches plain).2, fun later => shrunk_of_reaches⟩

end Runs

section Traces

/-- The state behind a run of steps, if they are possible. -/
def runs (state : ClientState) : List (Nat × Event) → Option ClientState
  | [] => some state
  | (thread, event) :: rest => (exec state thread event).bind fun next => runs next rest

/-- Whether all steps of a run are careful. -/
def carefulRun (state : ClientState) : List (Nat × Event) → Bool
  | [] => true
  | (thread, event) :: rest =>
    careful state thread && ((exec state thread event).all fun next => carefulRun next rest)

variable {steps : List (Nat × Event)}

theorem reaches_of_runs {state last : ClientState}
    (ran : runs state steps = some last) : Reaches ClientStep state last := by
  induction steps generalizing state with
  | nil =>
    cases ran
    exact .refl
  | cons step rest more =>
    obtain ⟨next, taken, ran⟩ := bind_eq_some_iff.mp ran
    exact .head ⟨step.1, step.2, taken⟩ (more ran)

theorem careful_of_runs {state last : ClientState}
    (ran : runs state steps = some last) (isCareful : carefulRun state steps = true) :
    Reaches CarefulStep state last := by
  induction steps generalizing state with
  | nil =>
    cases ran
    exact .refl
  | cons step rest more =>
    obtain ⟨next, taken, ran⟩ := bind_eq_some_iff.mp ran
    rw [carefulRun, taken, and_eq_true] at isCareful
    exact .head ⟨step.1, step.2, taken, isCareful.1⟩ (more ran isCareful.2)

/-- The answer of a server that announces nothing. -/
def silent : Answer := .response ⟨none, none, none, none⟩

/-- A thread lowers the limit to a million bytes while another one waits for its answer. -/
def lowering : List (Nat × Event) :=
  [(0, .call [] .get), (0, .go), (1, .call [] (.limit 1000000)), (1, .go), (1, .answer silent),
    (1, .go), (1, .go)]

/-- The other thread stores its answer. -/
def storing : List (Nat × Event) := [(0, .answer silent), (0, .go)]

/-- The limit that is cached for an instance. -/
def cachedLimit (state : ClientState) (instanceName : Str) : Option Nat :=
  (state.capabilities instanceName).map (·.maxBatchTransferSize)

theorem limits_shrink_lowering : ∃ state, runs .start lowering = some state ∧ Bounded state ∧
    ∀ later, Reaches CarefulStep state later → Shrunk state later := by
  have ran : (runs .start lowering).isSome := by decide
  obtain ⟨state, ran⟩ := isSome_iff_exists.mp ran
  exact ⟨state, ran, limits_shrink state (careful_of_runs ran (by decide))⟩

theorem limit_grows : ¬∀ state, Reaches ClientStep .start state →
    Bounded state ∧ ∀ later, Reaches ClientStep state later → Shrunk state later := by
  intro always
  have before : ((runs .start lowering).bind fun state => cachedLimit state []) = some 1000000 := by
    decide
  have behind : ((runs .start lowering).bind fun state => (runs state storing).bind fun later =>
      cachedLimit later []) = some 3145728 := by
    decide
  obtain ⟨state, ran, cached⟩ := bind_eq_some_iff.mp before
  rw [ran, bind_some] at behind
  obtain ⟨later, ran', cached'⟩ := bind_eq_some_iff.mp behind
  obtain ⟨result, found, limit⟩ := map_eq_some_iff.mp cached
  obtain ⟨result', found', limit'⟩ := map_eq_some_iff.mp cached'
  obtain ⟨other, again, smaller⟩ :=
    (always state (reaches_of_runs ran)).2 later (reaches_of_runs ran') [] result found
  rw [found'] at again
  cases again
  rw [limit, limit'] at smaller
  exact absurd smaller (by decide)

end Traces

end Jst.Verif.CapabilityLimits
