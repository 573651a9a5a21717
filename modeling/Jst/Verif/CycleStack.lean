import Jst.Verif.CycleDetection
/-!
# The stack of the search for a cycle

The calls are kept in a vector of a fixed size. With an access beyond its end and an endless
recursion taken as failures, the search does not fail, and it finds a cycle just if there is one.
-/
namespace Jst.Verif.CycleStack

open Multithreading Layers CycleDetection

variable {Key : Type} [DecidableEq Key]

/-- The vector `calls` and the set `known`. -/
structure Search (Key : Type) where
  calls : List Key
  known : List Key

/-- `(*calls)[pos] = key`. -/
def Search.put (search : Search Key) (pos : Nat) (key : Key) : Option (Search Key) :=
  if pos < search.calls.length then some { search with calls := search.calls.set pos key } else none

/-- The loop of `DetectCycleForCaller` over the nodes that a caller asked for. -/
def visitDeps (visit : Search Key → Key → Option (Bool × Search Key)) (pos : Nat) :
    List Key → Search Key → Option (Bool × Search Key)
  | [], search => some (false, search)
  | dep :: rest, search =>
    if search.calls.length < pos then none
    else if dep ∈ search.calls.take pos then do
      let search ← search.put pos dep
      return (true, { search with calls := search.calls.take (pos + 1) })
    else do
      match ← visit search dep with
      | (true, search) => return (true, search)
      | (false, search) => visitDeps visit pos rest search

/-- `DetectCycleForCaller`; the depth of the recursion is limited. -/
def detectCycleForCaller (requests : NodeRequests Key) :
    (depth pos : Nat) → Search Key → (caller : Key) → Option (Bool × Search Key)
  | 0, _, _, _ => none
  | depth + 1, pos, search, caller =>
    if caller ∈ search.known then some (false, search)
    else
      match requests.lookup caller with
      | none => some (false, { search with known := caller :: search.known })
      | some deps => do
        let search ← search.put pos caller
        let visit := detectCycleForCaller requests depth (pos + 1)
        match ← visitDeps visit (pos + 1) deps search with
        | (true, search) => return (true, search)
        | (false, search) => return (false, { search with known := caller :: search.known })

/-- The loop of `DetectCycle` over the callers. -/
def detectCycleFrom (requests : NodeRequests Key) :
    (callers : List Key) → Search Key → Option (Option (List Key))
  | [], _ => some none
  | caller :: rest, search => do
    match ← detectCycleForCaller requests (requests.length + 1) 0 search caller with
    | (true, search) => return some search.calls
    | (false, search) => detectCycleFrom requests rest search

def detectCycle {Value : Type} [Inhabited Key] (state : State Key Value) :
    Option (Option (List Key)) :=
  let requests := state.getPendingRequests
  detectCycleFrom requests (requests.map fst)
    ⟨replicate (requests.length + 1) default, []⟩

/-- A search on the vector does what a search on a list of calls does. -/
def Follows (size : Nat) (calls : List Key) (found : Option (Bool × Search Key)) :
    Option (List Key) × List Key → Prop
  | (some cycle, known) => found = some (true, ⟨cycle, known⟩)
  | (none, known) => ∃ stack, found = some (false, ⟨stack, known⟩) ∧ stack.length = size ∧
      calls <+: stack

omit [DecidableEq Key] in
variable {calls stack : List Key}

theorem put_prefix (begins : calls <+: stack)
    (room : calls.length < stack.length) (known : List Key) (key : Key) : ∃ rest,
    Search.put ⟨stack, known⟩ calls.length key = some ⟨calls ++ key :: rest, known⟩ ∧
      (calls ++ key :: rest).length = stack.length := by
  obtain ⟨tail, rfl⟩ := begins
  cases tail with
  | nil => simp at room
  | cons first rest => exact ⟨rest, by simp [Search.put], by simp⟩

theorem visitDeps_follows (size : Nat) (room : calls.length < size)
    {visit : Search Key → Key → Option (Bool × Search Key)}
    {visit' : List Key → Key → Option (List Key) × List Key} (deps : List Key)
    (visits : ∀ stack known, ∀ dep ∈ deps, dep ∉ calls → stack.length = size → calls <+: stack →
      Follows size calls (visit ⟨stack, known⟩ dep) (visit' known dep)) (known : List Key) (long :
    stack.length = size) (begins : calls <+: stack) :
    Follows size calls (visitDeps visit calls.length deps ⟨stack, known⟩)
      (Multithreading.visitDeps visit' calls deps known) := by
  induction deps generalizing stack known with
  | nil => exact ⟨stack, rfl, long, begins⟩
  | cons dep rest step =>
    have inside : ¬ stack.length < calls.length := by omega
    rw [visitDeps, Multithreading.visitDeps, if_neg inside,
      List.prefix_iff_eq_take.mp begins |>.symm]
    by_cases before : dep ∈ calls
    · obtain ⟨tail, put, -⟩ := put_prefix begins (by omega) known dep
      simp [before, put, Follows, List.take_append, List.take_of_length_le]
    · have visited := visits stack known dep mem_cons_self before long begins
      rw [if_neg before, if_neg before]
      rcases result : visit' known dep with ⟨_ | cycle, more⟩ <;> rw [result] at visited
      · obtain ⟨stack', same, long, begins⟩ := visited
        simpa [same] using step (fun stack known dep member =>
          visits stack known dep (mem_cons_of_mem _ member)) more long begins
      · simp [show visit ⟨stack, known⟩ dep = _ from visited, Follows]

theorem detectCycleForCaller_follows {requests : NodeRequests Key} {depth : Nat}
    {calls stack : List Key} (known : List Key) {caller : Key}
    (good : Calls requests calls) (fresh : caller ∉ calls)
    (asked : ∀ last ∈ calls.getLast?, Asks requests last caller)
    (deep : requests.length < depth + calls.length) (long : stack.length = requests.length + 1)
    (begins : calls <+: stack) : Follows (requests.length + 1) calls
      (detectCycleForCaller requests depth calls.length ⟨stack, known⟩ caller)
      (Multithreading.detectCycleForCaller requests depth calls known caller) := by
  induction depth generalizing calls stack known caller with
  | zero =>
    have := good.length_le
    omega
  | succ depth step =>
    simp only [detectCycleForCaller, Multithreading.detectCycleForCaller]
    by_cases before : caller ∈ known
    · rw [if_pos before, if_pos before]
      exact ⟨stack, rfl, long, begins⟩
    · rw [if_neg before, if_neg before]
      cases asking : requests.lookup caller with
      | none => exact ⟨stack, rfl, long, begins⟩
      | some deps =>
        have longer := good.concat fresh (by rw [asking]; rfl) asked
        have room := longer.length_le
        rw [length_append, length_singleton] at room
        obtain ⟨tail, put, same⟩ := put_prefix begins (by omega) known caller
        have visited := visitDeps_follows (requests.length + 1) (by simp; omega) deps
          (fun stack known dep member unlike long begins => step known longer unlike
            (by
              intro last isLast
              rw [List.getLast?_concat] at isLast
              cases isLast
              exact ⟨deps, asking, member⟩)
            (by simp only [length_append, length_singleton]; omega) long begins)
          known (same.trans long) (by simp)
        rw [length_append, length_singleton] at visited
        simp only [put, bind_eq_bind, bind_some]
        rcases result : Multithreading.visitDeps
            (Multithreading.detectCycleForCaller requests depth (calls ++ [caller]))
            (calls ++ [caller]) deps known with ⟨_ | cycle, more⟩ <;> rw [result] at visited
        · obtain ⟨stack, found, long, begins⟩ := visited
          exact ⟨stack, by simp [found], long, (List.prefix_append _ _).trans begins⟩
        · simp [show visitDeps _ _ _ _ = _ from visited, Follows]

theorem detectCycleFrom_eq {requests : NodeRequests Key} (callers : List Key)
    (known : List Key) (long : stack.length = requests.length + 1) :
    detectCycleFrom requests callers ⟨stack, known⟩ =
      some (Multithreading.detectCycleFrom requests callers known) := by
  induction callers generalizing stack known with
  | nil => rfl
  | cons caller rest step =>
    have searched := @detectCycleForCaller_follows Key _ requests (requests.length + 1) [] stack
      known caller ⟨nodup_nil, by simp, List.isChain_nil⟩ (by simp) (by simp) (by simp) long
      List.nil_prefix
    rw [length_nil] at searched
    simp only [detectCycleFrom, Multithreading.detectCycleFrom]
    rcases result : Multithreading.detectCycleForCaller requests (requests.length + 1) [] known
        caller with ⟨_ | cycle, more⟩ <;> rw [result] at searched
    · obtain ⟨stack, found, long, -⟩ := searched
      simpa [found] using step more long
    · simp [show detectCycleForCaller _ _ _ _ _ = _ from searched]

variable {Value : Type} (state : State Key Value)

/-- The caller waits for itself. -/
abbrev OnCycle (key : Key) : Prop := Relation.TransGen (Asks state.getPendingRequests) key key

theorem onCycle_of_isCycle {cycle : List Key} (found : IsCycle state.getPendingRequests cycle) :
    ∃ key, OnCycle state key := by
  obtain ⟨calls, last, rfl, before, -, -, chain⟩ := found
  obtain ⟨left, right, rfl⟩ := append_of_mem before
  rw [append_assoc] at chain
  have all := (chain.right_of_append.imp fun _ _ => Relation.TransGen.single).pairwise
  exact ⟨last, List.rel_of_pairwise_cons all (by simp)⟩

/-- The search stays on its stack, and finds a chain of requests whose last key has come before just
if there is a cycle. -/
theorem detectCycle_correct [Inhabited Key] : ∃ result, detectCycle state = some result ∧
    (result.isSome ↔ ∃ key, OnCycle state key) ∧
    ∀ cycle ∈ result, cycle.IsChain (Asks state.getPendingRequests) ∧
      ∃ last ∈ cycle.getLast?, last ∈ cycle.dropLast := by
  have searched := @detectCycleFrom_yields Key _ state.getPendingRequests
    (state.getPendingRequests.map fst) [] trivial
  refine ⟨state.detectCycle, detectCycleFrom_eq _ [] (by simp), ?_⟩
  have sound : ∀ cycle ∈ state.detectCycle, IsCycle state.getPendingRequests cycle := by
    intro cycle found
    simp only [State.detectCycle] at found
    rw [found] at searched
    exact searched
  refine ⟨⟨?_, ?_⟩, ?_⟩
  · intro some
    obtain ⟨cycle, found⟩ := isSome_iff_exists.mp some
    exact onCycle_of_isCycle state (sound cycle found)
  · rintro ⟨key, around⟩
    obtain ⟨cycle, found, -⟩ := detectCycle_isCycle state (OnCycle state) around (by
      intro caller around
      obtain ⟨dep, asks, back⟩ := Relation.TransGen.head'_iff.mp around
      exact ⟨dep, asks, Relation.TransGen.trans_right back (.single asks)⟩)
    rw [found]
    rfl
  · intro cycle found
    obtain ⟨calls, last, rfl, before, -, -, chain⟩ := sound cycle found
    exact ⟨chain, last, by simp, by simpa using before⟩

end Jst.Verif.CycleStack
