import Jst.Data.Bisimulation
import Jst.Data.Loops
import Jst.Utils.DfaMinimizer
/-!
# The minimiser computes bisimilarity

Marked pairs are not bisimilar, since marks only travel from a pair to the pairs that depend on it.
When all pairs have been compared, the pairs that are left unmarked form a bisimulation. The classes
that are then collected have one representative each.
-/
namespace Jst.Verif.Minimization

open Jst.SortedMap Jst.DfaMinimizer Jst.Bisimulation

variable {right left symbol : Str} {bucket : Bucket} {states : List Str}

section Marking

/-- A pair is marked. -/
def Marked (pairs : StatePairs) (key : StatePairKey) : Prop := (pairs.value key).marked = true

/-- The number of pairs that are not marked. -/
def unmarkedCount (pairs : StatePairs) : Nat :=
  pairs.keys.countP fun key => !(pairs.value key).marked

/-- The table has the same keys and parents, and more pairs are marked; the parents of those that
are new are marked, too, and all new ones have the property that marks pass on. -/
structure Marks (bad : StatePairKey → Prop) (pairs next : StatePairs) : Prop where
  keys : next.keys = pairs.keys
  parents : ∀ key, (next.value key).parents = (pairs.value key).parents
  kept : ∀ {key}, Marked pairs key → Marked next key
  closed : ∀ {key}, Marked next key → ¬Marked pairs key →
    ∀ parent ∈ (pairs.value key).parents, Marked next parent
  bad : ∀ {key}, Marked next key → Marked pairs key ∨ bad key

variable {bad : StatePairKey → Prop} {pairs next last : StatePairs} {key : StatePairKey}

theorem Marks.refl (bad : StatePairKey → Prop) (pairs : StatePairs) : Marks bad pairs pairs :=
  ⟨rfl, fun _ => rfl, id, fun marked fresh => absurd marked fresh, .inl⟩

theorem Marks.trans (first : Marks bad pairs next) (second : Marks bad next last) :
    Marks bad pairs last := by
  constructor
  · rw [second.keys, first.keys]
  · intro key
    rw [second.parents, first.parents]
  · exact fun marked => second.kept (first.kept marked)
  · intro key marked fresh parent member
    by_cases between : Marked next key
    · exact second.kept (first.closed between fresh parent member)
    · exact second.closed marked between parent (first.parents key ▸ member)
  · intro key marked
    cases second.bad marked with
    | inl between => exact first.bad between
    | inr isBad => exact .inr isBad

theorem Marks.unmarkedCount_le (marks : Marks bad pairs next) :
    unmarkedCount next ≤ unmarkedCount pairs := by
  rw [unmarkedCount, marks.keys]
  refine List.countP_mono_left fun key _ unmarked => ?_
  cases marked : (pairs.value key).marked with
  | false => rfl
  | true =>
    rw [show (next.value key).marked = true from marks.kept marked] at unmarked
    cases unmarked

/-- The table in which a pair is marked and nothing else is changed. -/
abbrev mark (pairs : StatePairs) (key : StatePairKey) : StatePairs :=
  pairs.set key { pairs.value key with marked := true }

theorem marked_mark (pairs : StatePairs) (key other : StatePairKey) :
    Marked (mark pairs key) other ↔ other = key ∨ Marked pairs other := by
  unfold Marked mark StatePairs.set
  by_cases same : other = key
  · simp [same]
  · simp [same]

theorem parents_mark (pairs : StatePairs) (key other : StatePairKey) :
    ((mark pairs key).value other).parents = (pairs.value other).parents := by
  unfold mark StatePairs.set
  by_cases same : other = key
  · simp [same]
  · simp [same]

theorem unmarkedCount_mark (member : key ∈ pairs.keys) (fresh : ¬Marked pairs key) :
    unmarkedCount (mark pairs key) < unmarkedCount pairs := by
  refine Loops.countP_lt (fun other unmarked => ?_) member ?_ ?_
  · cases marked : (pairs.value other).marked with
    | false => rfl
    | true =>
      have still : ((mark pairs key).value other).marked = true :=
        (marked_mark pairs key other).mpr (.inr marked)
      rw [still] at unmarked
      cases unmarked
  · simpa [Marked] using fresh
  · have now : ((mark pairs key).value key).marked = true :=
      (marked_mark pairs key key).mpr (.inl rfl)
    rw [now]
    rfl

/-- A table with given keys and parents in which at most so many pairs are not marked. -/
structure Shape (pairs : StatePairs) (bound : Nat) (table : StatePairs) : Prop where
  keys : table.keys = pairs.keys
  parents : ∀ key, (table.value key).parents = (pairs.value key).parents
  count : unmarkedCount table ≤ bound

theorem markPairValue_marks (passed : ∀ key parent, parent ∈ (pairs.value key).parents →
      parent ∈ pairs.keys ∧ (bad key → bad parent))
    (depth : Nat) (member : key ∈ pairs.keys) (isBad : bad key)
    (enough : if (pairs.value key).marked then unmarkedCount pairs < depth
      else unmarkedCount pairs ≤ depth) :
    ∃ next, markPairValue depth pairs key = some next ∧ Marks bad pairs next ∧ Marked next key ∧
      ∀ parent ∈ (pairs.value key).parents, Marked next parent := by
  induction depth generalizing pairs key with
  | zero =>
    cases marked : (pairs.value key).marked with
    | true =>
      rw [if_pos marked] at enough
      exact absurd enough (Nat.not_lt_zero _)
    | false =>
      have some' : 0 < unmarkedCount pairs :=
        List.countP_pos_iff.mpr ⟨key, member, by rw [marked]; rfl⟩
      rw [if_neg (by rw [marked]; exact false_ne_true)] at enough
      omega
  | succ depth step =>
    have less : unmarkedCount (mark pairs key) ≤ depth := by
      cases marked : (pairs.value key).marked with
      | true =>
        rw [if_pos marked] at enough
        have same : unmarkedCount (mark pairs key) ≤ unmarkedCount pairs := by
          refine List.countP_mono_left fun other _ unmarked => ?_
          cases was : (pairs.value other).marked with
          | false => rfl
          | true =>
            have still : ((mark pairs key).value other).marked = true :=
              (marked_mark pairs key other).mpr (.inr was)
            rw [still] at unmarked
            cases unmarked
        omega
      | false =>
        have fresh : ¬Marked pairs key := by rw [Marked, marked]; exact false_ne_true
        rw [if_neg (show ¬(pairs.value key).marked = true from fresh)] at enough
        have fewer := unmarkedCount_mark member fresh
        omega
    -- the loop over the parents only ever marks more of the same table
    have advance : ∀ table, ∀ parent ∈ (pairs.value key).parents,
        Shape pairs depth table →
        ∃ next, (if (table.value parent).marked then some table
            else markPairValue depth table parent) = some next ∧
          Shape pairs depth next ∧ Marks bad table next ∧ Marked next parent := by
      intro table parent inside shape
      obtain ⟨keys, parents, count⟩ := shape
      by_cases marked : (table.value parent).marked = true
      · exact ⟨table, if_pos marked, ⟨keys, parents, count⟩, Marks.refl bad table, marked⟩
      · have passed' : ∀ key parent, parent ∈ (table.value key).parents →
            parent ∈ table.keys ∧ (bad key → bad parent) := by
          intro key parent inside
          rw [parents] at inside
          rw [keys]
          exact passed key parent inside
        have above := passed key parent inside
        obtain ⟨next, called, marks, now, -⟩ := step passed' (keys ▸ above.1) (above.2 isBad)
          (by rw [if_neg marked]; exact count)
        refine ⟨next, by rw [if_neg marked]; exact called, ⟨?_, ?_, ?_⟩, marks, now⟩
        · rw [marks.keys, keys]
        · intro other
          rw [marks.parents, parents]
        · exact marks.unmarkedCount_le.trans count
    have shape : Shape pairs depth (mark pairs key) := ⟨rfl, parents_mark pairs key, less⟩
    obtain ⟨next, ran, -, marks, reached⟩ := @Loops.foldlM_reaches _ _ _ _ (Shape pairs depth)
      (Marks bad) (fun parent table => Marked table parent) (Marks.refl bad) Marks.trans
      (fun marked marks => marks.kept marked) advance _ shape
    have here : Marked next key := marks.kept ((marked_mark pairs key key).mpr (.inl rfl))
    refine ⟨next, ran, ⟨?_, ?_, ?_, ?_, ?_⟩, here, reached⟩
    · exact marks.keys
    · intro other
      rw [marks.parents, parents_mark]
    · exact fun marked => marks.kept ((marked_mark pairs key _).mpr (.inr marked))
    · intro other marked fresh parent inside
      by_cases same : other = key
      · subst same
        exact reached parent inside
      · refine marks.closed marked (fun between => ?_) parent (parents_mark pairs key other ▸ inside)
        cases (marked_mark pairs key other).mp between with
        | inl equal => exact same equal
        | inr before => exact fresh before
    · intro other marked
      cases marks.bad marked with
      | inr isBad => exact .inr isBad
      | inl between =>
        cases (marked_mark pairs key other).mp between with
        | inl equal => exact .inr (equal ▸ isBad)
        | inr before => exact .inl before

end Marking

section Graphs

/-- A transition graph: states with different names, each with its transitions and the id of its
content. A target of a transition need not be a state. -/
structure Table where
  states : List (Str × Transitions × Str)
  distinct : (states.map fst).Nodup
  ordered : ∀ state ∈ states, Ascending state.2.1

variable (table : Table)

/-- The transition system of a table: a name that is not a state is like no other one. -/
def Table.system : System Str Str (Str ⊕ Str) where
  label := fun name =>
    match find name table.states with
    | some state => .inl state.2
    | none => .inr name
  next := fun name symbol => (find name table.states).bind fun state => find symbol state.1

/-- The minimiser to which the states of a table have been added. -/
def Table.minimizer : Option Minimizer :=
  table.states.foldlM (fun minimizer state =>
    addState minimizer state.1 state.2.1 state.2.2) { buckets := [], bucketsByState := [] }

/-- The id of the bucket of a state. -/
def bucketId (state : Transitions × Str) : BucketId := (state.2, state.1.map fst)

/-- The minimiser that holds some states. -/
def minimizerOf (states : List (Str × Transitions × Str)) : Minimizer where
  buckets := Grouping.group (states.map fun state => (bucketId state.2, state.1, state.2.1))
  bucketsByState := states.map fun state => (state.1, bucketId state.2)

theorem addState_foldlM (states : List (Str × Transitions × Str))
    (distinct : (states.map fst).Nodup) : states.foldlM (fun minimizer state =>
      addState minimizer state.1 state.2.1 state.2.2) { buckets := [], bucketsByState := [] } =
      some (minimizerOf states) := by
  induction states using List.reverseRecOn with
  | nil => rfl
  | append_singleton states state step =>
    rw [map_append, nodup_append] at distinct
    obtain ⟨before, -, apart⟩ := distinct
    have absent : find state.1 (minimizerOf states).bucketsByState = none := by
      refine find_eq_none.mpr fun entry member same => ?_
      obtain ⟨other, inside, made⟩ := mem_map.mp member
      rw [← made] at same
      exact apart _ (mem_map.mpr ⟨other, inside, rfl⟩) _ (mem_singleton_self _) same
    rw [List.foldlM_append, step before]
    show addState (minimizerOf states) state.1 state.2.1 state.2.2 >>= pure = _
    rw [addState, absent, minimizerOf, minimizerOf, map_append, map_append]
    simp only [map_cons, map_nil, Grouping.group_concat]
    rfl

theorem minimizer_eq : table.minimizer = some (minimizerOf table.states) :=
  addState_foldlM table.states table.distinct

variable {table}

theorem find_state {name : Str} {state : Transitions × Str}
    (member : (name, state) ∈ table.states) : find name table.states = some state := by
  refine find_of_unique member fun other present => ?_
  have same := List.inj_on_of_nodup_map table.distinct present member rfl
  exact congrArg snd same

variable {id : BucketId}

theorem mem_bucket (listed : (id, bucket) ∈ (minimizerOf table.states).buckets)
    (name : Str) (transitions : Transitions) : (name, transitions) ∈ bucket ↔
      ∃ content, (name, transitions, content) ∈ table.states ∧
        id = bucketId (transitions, content) := by
  rw [((Grouping.mem_group _ _ _).mp listed).1, Grouping.select]
  simp only [mem_map, mem_filter, decide_eq_true_eq]
  constructor
  · intro chosen
    obtain ⟨_, ⟨⟨⟨name', transitions', content⟩, member, rfl⟩, same⟩, equal⟩ := chosen
    cases equal
    exact ⟨content, member, same.symm⟩
  · intro chosen
    obtain ⟨content, member, same⟩ := chosen
    exact ⟨_, ⟨⟨_, member, rfl⟩, same.symm⟩, rfl⟩

theorem bucket_of_state {name : Str} {state : Transitions × Str}
    (member : (name, state) ∈ table.states) :
    ∃ bucket, (bucketId state, bucket) ∈ (minimizerOf table.states).buckets ∧
      (name, state.1) ∈ bucket := by
  have chosen : (name, state.1) ∈ Grouping.select (bucketId state)
      (table.states.map fun state => (bucketId state.2, state.1, state.2.1)) := by
    simp only [Grouping.select, mem_map, mem_filter, decide_eq_true_eq]
    exact ⟨_, ⟨⟨_, member, rfl⟩, rfl⟩, rfl⟩
  exact ⟨_, (Grouping.mem_group _ _ _).mpr ⟨rfl, List.ne_nil_of_mem chosen⟩, chosen⟩

theorem bucket_nodup (listed : (id, bucket) ∈ (minimizerOf table.states).buckets) :
    (bucket.map fst).Nodup := by
  rw [((Grouping.mem_group _ _ _).mp listed).1, Grouping.select, map_map]
  have names : (table.states.map fun state => (bucketId state.2, state.1, state.2.1)).map
      (fun entry => entry.2.1) = table.states.map fst := by
    rw [map_map]
    rfl
  have distinct := table.distinct
  rw [← names] at distinct
  exact distinct.sublist (List.filter_sublist.map _)

/-- Two states look alike at first: they share a bucket. -/
def SameBucket (table : Table) (left right : Str) : Prop :=
  ∃ leftState rightState, (left, leftState) ∈ table.states ∧ (right, rightState) ∈ table.states ∧
    bucketId leftState = bucketId rightState

theorem statePairKey_comm (left right : Str) :
    statePairKey left right = statePairKey right left := by
  unfold statePairKey
  split
  · next below =>
    split
    · next above => exact absurd above (lt_asymm below)
    · rfl
  · next notBelow =>
    split
    · rfl
    · next notAbove =>
      have same : left = right := le_antisymm (not_lt.mp notAbove) (not_lt.mp notBelow)
      rw [same]

theorem statePairKey_cases (left right : Str) :
    statePairKey left right = (left, right) ∨ statePairKey left right = (right, left) := by
  unfold statePairKey
  split
  · exact .inl rfl
  · exact .inr rfl

variable {earlier : List Str}

theorem of_mem_pairsWithEarlier {key : StatePairKey}
    (distinct : (earlier ++ states).Nodup) (member : key ∈ pairsWithEarlier earlier states) :
    ∃ left ∈ states, ∃ right ∈ earlier ++ states, left ≠ right ∧ key = statePairKey left right := by
  induction states generalizing earlier with
  | nil => cases member
  | cons state states step =>
    rw [pairsWithEarlier] at member
    cases mem_append.mp member with
    | inl here =>
      obtain ⟨other, inside, same⟩ := mem_map.mp here
      have apart := (nodup_append.mp distinct).2.2 other inside state mem_cons_self
      exact ⟨state, mem_cons_self, other, mem_append_left _ inside, apart.symm, same.symm⟩
    | inr later =>
      have distinct' : (earlier ++ [state] ++ states).Nodup := by simpa using distinct
      obtain ⟨left, inside, right, present, apart, same⟩ := step distinct' later
      exact ⟨left, mem_cons_of_mem _ inside, right, by simpa using present, apart, same⟩

theorem mem_pairsWithEarlier (apart : left ≠ right) (leftIn : left ∈ states)
    (rightIn : right ∈ earlier ++ states) :
    statePairKey left right ∈ pairsWithEarlier earlier states := by
  induction states generalizing earlier left right with
  | nil => cases leftIn
  | cons state states step =>
    rw [pairsWithEarlier, mem_append]
    cases mem_cons.mp leftIn with
    | inl here =>
      subst here
      cases mem_append.mp rightIn with
      | inl before => exact .inl (mem_map.mpr ⟨right, before, rfl⟩)
      | inr after =>
        cases mem_cons.mp after with
        | inl same => exact absurd same.symm apart
        | inr later =>
          rw [statePairKey_comm]
          exact .inr (step apart.symm later (by simp))
    | inr later => exact .inr (step apart later (by simpa using rightIn))

/-- A key of two different states that share a bucket. -/
def IsPair (table : Table) (key : StatePairKey) : Prop :=
  ∃ left right, left ≠ right ∧ SameBucket table left right ∧ key = statePairKey left right

theorem mem_names {states : Iteration (Str × Transitions)}
    (listed : (id, bucket) ∈ (minimizerOf table.states).buckets) {name : Str} :
    name ∈ (states.arrange bucket).map fst ↔
      ∃ state, (name, state) ∈ table.states ∧ id = bucketId state := by
  rw [((states.perm bucket).map fst).mem_iff, mem_map]
  constructor
  · intro chosen
    obtain ⟨⟨name', transitions⟩, inside, same⟩ := chosen
    cases same
    obtain ⟨content, member, named⟩ := (mem_bucket listed _ _).mp inside
    exact ⟨(transitions, content), member, named⟩
  · intro chosen
    obtain ⟨⟨transitions, content⟩, member, named⟩ := chosen
    exact ⟨(name, transitions), (mem_bucket listed _ _).mpr ⟨content, member, named⟩, rfl⟩

theorem mem_createPairs (buckets : Iteration (BucketId × Bucket))
    (states : Iteration (Str × Transitions)) (key : StatePairKey) :
    key ∈ (createPairs states (buckets.arrange (minimizerOf table.states).buckets)).keys ↔
      IsPair table key := by
  rw [createPairs, List.mem_flatMap]
  constructor
  · intro inside
    obtain ⟨⟨id, bucket⟩, listed, member⟩ := inside
    rw [(buckets.perm _).mem_iff] at listed
    have distinct : ((states.arrange bucket).map fst).Nodup :=
      ((states.perm bucket).map fst).nodup_iff.mpr (bucket_nodup listed)
    obtain ⟨left, leftIn, right, rightIn, apart, same⟩ := of_mem_pairsWithEarlier distinct member
    obtain ⟨leftState, leftMember, leftId⟩ := (mem_names listed).mp leftIn
    obtain ⟨rightState, rightMember, rightId⟩ := (mem_names listed).mp rightIn
    exact ⟨left, right, apart, ⟨_, _, leftMember, rightMember, leftId.symm.trans rightId⟩, same⟩
  · intro pair
    obtain ⟨left, right, apart, ⟨leftState, rightState, leftMember, rightMember, ids⟩, same⟩ := pair
    obtain ⟨bucket, listed, -⟩ := bucket_of_state leftMember
    refine ⟨(bucketId leftState, bucket), (buckets.perm _).mem_iff.mpr listed, ?_⟩
    rw [same]
    exact mem_pairsWithEarlier apart ((mem_names listed).mpr ⟨_, leftMember, rfl⟩)
      ((mem_names listed).mpr ⟨_, rightMember, ids⟩)

end Graphs

section Comparing

variable {table : Table} {pairs next last : StatePairs} {key : StatePairKey}

/-- The states of a pair are not bisimilar. -/
def Differ (table : Table) (key : StatePairKey) : Prop := ¬Bisimilar table.system key.1 key.2

theorem differ_statePairKey :
    Differ table (statePairKey left right) ↔ ¬Bisimilar table.system left right := by
  cases statePairKey_cases left right with
  | inl same => rw [same, Differ]
  | inr swapped =>
    rw [swapped, Differ]
    exact not_congr ⟨Bisimilar.symm, Bisimilar.symm⟩

/-- The states of the first pair have the states of the second as successors under a symbol. -/
def DependsOn (table : Table) (parent key : StatePairKey) : Prop :=
  ∃ symbol left right, table.system.next parent.1 symbol = some left ∧
    table.system.next parent.2 symbol = some right ∧ key = statePairKey left right

theorem DependsOn.differ {parent : StatePairKey} (depends : DependsOn table parent key)
    (differ : Differ table key) : Differ table parent := by
  obtain ⟨symbol, left, right, leftNext, rightNext, same⟩ := depends
  rw [same, differ_statePairKey] at differ
  exact fun alike => differ (alike.next leftNext rightNext)

/-- What holds of the table of pairs at any time. -/
structure Sound (table : Table) (pairs : StatePairs) : Prop where
  keys : ∀ {key}, key ∈ pairs.keys ↔ IsPair table key
  differ : ∀ {key}, Marked pairs key → Differ table key
  parents : ∀ {key parent}, parent ∈ (pairs.value key).parents →
    parent ∈ pairs.keys ∧ DependsOn table parent key
  closed : ∀ {key}, Marked pairs key → ∀ parent ∈ (pairs.value key).parents, Marked pairs parent

/-- A table has grown: parents and marks have been added. -/
structure Grows (pairs next : StatePairs) : Prop where
  keys : next.keys = pairs.keys
  parents : ∀ {key parent}, parent ∈ (pairs.value key).parents → parent ∈ (next.value key).parents
  kept : ∀ {key}, Marked pairs key → Marked next key

theorem Grows.refl (pairs : StatePairs) : Grows pairs pairs := ⟨rfl, id, id⟩

theorem Grows.trans (first : Grows pairs next) (second : Grows next last) : Grows pairs last :=
  ⟨second.keys.trans first.keys, fun member => second.parents (first.parents member),
    fun marked => second.kept (first.kept marked)⟩

/-- A pair has been compared under a symbol: it is marked if the successors differ already, and
else waits for the pair of the successors. -/
def Compared (table : Table) (key : StatePairKey) (symbol : Str) (pairs : StatePairs) : Prop :=
  ∀ left right, table.system.next key.1 symbol = some left →
    table.system.next key.2 symbol = some right → left = right ∨ Marked pairs key ∨
      statePairKey left right ∈ pairs.keys ∧ key ∈ (pairs.value (statePairKey left right)).parents

theorem Compared.grows (compared : Compared table key symbol pairs) (grows : Grows pairs next) :
    Compared table key symbol next := by
  intro left right leftNext rightNext
  obtain same | marked | waits := compared left right leftNext rightNext
  · exact .inl same
  · exact .inr (.inl (grows.kept marked))
  · exact .inr (.inr ⟨grows.keys ▸ waits.1, grows.parents waits.2⟩)

theorem Sound.mark (sound : Sound table pairs) (member : key ∈ pairs.keys)
    (differ : Differ table key) :
    ∃ next, markPairValue (pairs.keys.length + 1) pairs key = some next ∧ Sound table next ∧
      Grows pairs next ∧ Marked next key := by
  have passed : ∀ key parent, parent ∈ (pairs.value key).parents →
      parent ∈ pairs.keys ∧ (Differ table key → Differ table parent) :=
    fun key parent inside => ⟨(sound.parents inside).1, (sound.parents inside).2.differ⟩
  have few : unmarkedCount pairs ≤ pairs.keys.length := List.countP_le_length
  have enough : if (pairs.value key).marked then unmarkedCount pairs < pairs.keys.length + 1
      else unmarkedCount pairs ≤ pairs.keys.length + 1 := by
    split <;> omega
  obtain ⟨next, called, marks, marked, -⟩ := markPairValue_marks passed _ member differ enough
  refine ⟨next, called, ⟨?_, ?_, ?_, ?_⟩, ⟨marks.keys, ?_, marks.kept⟩, marked⟩
  · intro key
    rw [marks.keys]
    exact sound.keys
  · intro key marked
    cases marks.bad marked with
    | inl before => exact sound.differ before
    | inr differ => exact differ
  · intro key parent inside
    rw [marks.parents] at inside
    rw [marks.keys]
    exact sound.parents inside
  · intro key marked parent inside
    rw [marks.parents] at inside
    by_cases before : Marked pairs key
    · exact marks.kept (sound.closed before parent inside)
    · exact marks.closed marked before parent inside
  · intro key parent inside
    rw [marks.parents]
    exact inside

theorem Sound.wait (sound : Sound table pairs) {parent : StatePairKey}
    (member : parent ∈ pairs.keys) (fresh : ¬Marked pairs key) (depends : DependsOn table parent key) :
    Sound table (pairs.set key
      { pairs.value key with parents := (pairs.value key).parents ++ [parent] }) ∧
    Grows pairs (pairs.set key
      { pairs.value key with parents := (pairs.value key).parents ++ [parent] }) ∧
    parent ∈ ((pairs.set key { pairs.value key with
      parents := (pairs.value key).parents ++ [parent] }).value key).parents := by
  have marked : ∀ {other}, Marked (pairs.set key
      { pairs.value key with parents := (pairs.value key).parents ++ [parent] }) other ↔
      Marked pairs other := by
    intro other
    unfold Marked StatePairs.set
    by_cases same : other = key <;> simp [same]
  have parents : ∀ {other member}, member ∈ ((pairs.set key { pairs.value key with
      parents := (pairs.value key).parents ++ [parent] }).value other).parents ↔
      member ∈ (pairs.value other).parents ∨ other = key ∧ member = parent := by
    intro other member
    unfold StatePairs.set
    by_cases same : other = key <;> simp [same]
  refine ⟨⟨sound.keys, fun now => sound.differ (marked.mp now), ?_, ?_⟩,
    ⟨rfl, fun inside => parents.mpr (.inl inside), marked.mpr⟩, parents.mpr (.inr ⟨rfl, rfl⟩)⟩
  · intro other waiting inside
    cases parents.mp inside with
    | inl before => exact sound.parents before
    | inr added =>
      rw [added.1, added.2]
      exact ⟨member, depends⟩
  · intro other now waiting inside
    rw [marked] at now ⊢
    cases parents.mp inside with
    | inl before => exact sound.closed now waiting before
    | inr added => exact absurd (added.1 ▸ now) fresh

theorem next_eq {name : Str} {state : Transitions × Str} (member : (name, state) ∈ table.states) :
    table.system.next name symbol = find symbol state.1 := by
  show (find name table.states).bind _ = _
  rw [find_state member, bind_some]

theorem states_of_bisimilar (apart : left ≠ right) (alike : Bisimilar table.system left right) :
    ∃ leftState rightState, (left, leftState) ∈ table.states ∧
      (right, rightState) ∈ table.states := by
  have labels := alike.label
  simp only [Table.system] at labels
  cases leftFound : find left table.states with
  | none =>
    cases rightFound : find right table.states with
    | none =>
      rw [leftFound, rightFound] at labels
      exact absurd (Sum.inr.inj labels) apart
    | some rightState => rw [leftFound, rightFound] at labels; cases labels
  | some leftState =>
    cases rightFound : find right table.states with
    | none => rw [leftFound, rightFound] at labels; cases labels
    | some rightState =>
      exact ⟨leftState, rightState, mem_of_find leftFound, mem_of_find rightFound⟩

variable {leftState rightState : Transitions × Str}

theorem sameBucket_of_bisimilar
    (leftIn : (left, leftState) ∈ table.states) (rightIn : (right, rightState) ∈ table.states)
    (alike : Bisimilar table.system left right) : bucketId leftState = bucketId rightState := by
  have contents : leftState.2 = rightState.2 := by
    have labels := alike.label
    simp only [Table.system, find_state leftIn, find_state rightIn] at labels
    exact Sum.inl.inj labels
  have marks : leftState.1.map (fun entry => (entry.1, ())) =
      rightState.1.map fun entry => (entry.1, ()) := by
    have leftOrdered : Ascending leftState.1 := table.ordered _ leftIn
    have rightOrdered : Ascending rightState.1 := table.ordered _ rightIn
    refine ext_find (mapValues_ascending (fun _ => ()) leftOrdered)
      (mapValues_ascending (fun _ => ()) rightOrdered) fun symbol => ?_
    have present := alike.isSome symbol
    rw [next_eq leftIn, next_eq rightIn] at present
    rw [find_mapValues (fun _ => ()), find_mapValues (fun _ => ())]
    cases leftNext : find symbol leftState.1 <;> cases rightNext : find symbol rightState.1 <;>
      simp_all
  have symbols := congrArg (List.map fst) marks
  rw [map_map, map_map] at symbols
  exact Prod.ext contents symbols

theorem compareSymbol_spec
    (leftIn : (key.1, leftState) ∈ table.states) (rightIn : (key.2, rightState) ∈ table.states)
    (ids : bucketId leftState = bucketId rightState)
    (listed : (bucketId leftState, bucket) ∈ (minimizerOf table.states).buckets)
    (known : symbol ∈ (bucketId leftState).2) (sound : Sound table pairs)
    (member : key ∈ pairs.keys) :
    ∃ next, compareSymbol bucket key pairs symbol = some next ∧ Sound table next ∧
      Grows pairs next ∧ Compared table key symbol next := by
  have stored : ∀ {name state}, (name, state) ∈ table.states →
      bucketId leftState = bucketId state → find name bucket = some state.1 := by
    intro name state inside id
    have present := (mem_bucket listed name state.1).mpr ⟨state.2, inside, id⟩
    refine find_of_unique present fun other otherIn => ?_
    have same := List.inj_on_of_nodup_map (bucket_nodup listed) otherIn present rfl
    exact congrArg snd same
  obtain ⟨left, leftFound⟩ := isSome_iff_exists.mp (mem_keys.mp known)
  have known' : symbol ∈ (bucketId rightState).2 := by
    rw [← ids]
    exact known
  obtain ⟨right, rightFound⟩ := isSome_iff_exists.mp (mem_keys.mp known')
  have leftNext := (next_eq leftIn).trans leftFound
  have rightNext := (next_eq rightIn).trans rightFound
  have successors : ∀ {left' right'}, table.system.next key.1 symbol = some left' →
      table.system.next key.2 symbol = some right' → left' = left ∧ right' = right := by
    intro left' right' leftStep rightStep
    rw [leftNext] at leftStep
    rw [rightNext] at rightStep
    exact ⟨(some.inj leftStep).symm, (some.inj rightStep).symm⟩
  have marking : Differ table key → ∃ next,
      markPairValue (pairs.keys.length + 1) pairs key = some next ∧ Sound table next ∧
        Grows pairs next ∧ Compared table key symbol next := by
    intro differ
    obtain ⟨next, called, kept, grows, marked⟩ := sound.mark member differ
    exact ⟨next, called, kept, grows, fun _ _ _ _ => .inr (.inl marked)⟩
  have depends : DependsOn table key (statePairKey left right) :=
    ⟨symbol, left, right, leftNext, rightNext, rfl⟩
  unfold compareSymbol
  simp only [stored leftIn rfl, stored rightIn ids, leftFound, rightFound, bind_eq_bind, bind_some]
  by_cases same : left = right
  · rw [if_pos same]
    refine ⟨pairs, rfl, sound, Grows.refl pairs, fun left' right' leftStep rightStep => ?_⟩
    obtain ⟨rfl, rfl⟩ := successors leftStep rightStep
    exact .inl same
  · rw [if_neg same]
    unfold lookupPairValue
    by_cases present : statePairKey left right ∈ pairs.keys
    · rw [if_pos present]
      by_cases marked : Marked pairs (statePairKey left right)
      · dsimp only
        rw [if_pos (show (pairs.value (statePairKey left right)).marked = true from marked)]
        exact marking (depends.differ (sound.differ marked))
      · dsimp only
        rw [if_neg (show ¬(pairs.value (statePairKey left right)).marked = true from marked)]
        obtain ⟨kept, grows, waits⟩ := sound.wait member marked depends
        refine ⟨_, rfl, kept, grows, fun left' right' leftStep rightStep => ?_⟩
        obtain ⟨rfl, rfl⟩ := successors leftStep rightStep
        exact .inr (.inr ⟨present, waits⟩)
    · rw [if_neg present]
      refine marking (depends.differ (differ_statePairKey.mpr fun alike => present ?_))
      obtain ⟨leftState', rightState', leftTarget, rightTarget⟩ := states_of_bisimilar same alike
      exact sound.keys.mpr ⟨left, right, same, ⟨_, _, leftTarget, rightTarget,
        sameBucket_of_bisimilar leftTarget rightTarget alike⟩, rfl⟩

theorem comparePair_spec (sound : Sound table pairs) (pair : IsPair table key) :
    ∃ next, comparePair (minimizerOf table.states) pairs key = some next ∧ Sound table next ∧
      Grows pairs next ∧ ∀ symbol, Compared table key symbol next := by
  have member := sound.keys.mpr pair
  have states : ∃ leftState rightState, (key.1, leftState) ∈ table.states ∧
      (key.2, rightState) ∈ table.states ∧ bucketId leftState = bucketId rightState := by
    obtain ⟨left, right, -, ⟨leftState, rightState, leftIn, rightIn, ids⟩, same⟩ := pair
    rw [same]
    cases statePairKey_cases left right with
    | inl kept => rw [kept]; exact ⟨_, _, leftIn, rightIn, ids⟩
    | inr swapped => rw [swapped]; exact ⟨_, _, rightIn, leftIn, ids.symm⟩
  obtain ⟨leftState, rightState, leftIn, rightIn, ids⟩ := states
  obtain ⟨bucket, listed, -⟩ := bucket_of_state leftIn
  have byState : find key.1 (minimizerOf table.states).bucketsByState =
      some (bucketId leftState) := by
    have mapped := find_mapValues bucketId key.1 table.states
    rw [find_state leftIn] at mapped
    exact mapped
  have byId : (minimizerOf table.states).buckets.find? (fun bucket =>
      bucket.1 = bucketId leftState) = some (bucketId leftState, bucket) := by
    cases found : (minimizerOf table.states).buckets.find? fun bucket =>
        bucket.1 = bucketId leftState with
    | none => simpa using List.find?_eq_none.mp found _ listed
    | some other =>
      have inside := List.mem_of_find?_eq_some found
      have named : other.1 = bucketId leftState := by simpa using List.find?_some found
      rw [List.inj_on_of_nodup_map (Grouping.group_nodup _) inside listed named]
  obtain ⟨next, ran, ⟨kept, -⟩, grows, compared⟩ := @Loops.foldlM_reaches _ _
    (bucketId leftState).2 (compareSymbol bucket key)
    (fun current => Sound table current ∧ key ∈ current.keys) Grows (Compared table key) Grows.refl
    Grows.trans Compared.grows
    (fun current symbol known holds => by
      obtain ⟨next, called, kept, grows, compared⟩ :=
        compareSymbol_spec leftIn rightIn ids listed known holds.1 holds.2
      exact ⟨next, called, ⟨kept, grows.keys ▸ holds.2⟩, grows, compared⟩)
    pairs ⟨sound, member⟩
  refine ⟨next, ?_, kept, grows, fun symbol => ?_⟩
  · unfold comparePair
    simp only [byState, byId, bind_eq_bind, bind_some, map_some]
    exact ran
  · by_cases known : symbol ∈ (bucketId leftState).2
    · exact compared symbol known
    · -- without a successor there is nothing to compare
      intro left right leftNext
      rw [next_eq leftIn] at leftNext
      have present : (find symbol leftState.1).isSome := by rw [leftNext]; rfl
      exact absurd (mem_keys.mpr present) known

theorem compareAll_spec (buckets : Iteration (BucketId × Bucket))
    (states : Iteration (Str × Transitions)) (keys : Iteration StatePairKey) (table : Table) :
    ∃ pairs, (keys.arrange (createPairs states
        (buckets.arrange (minimizerOf table.states).buckets)).keys).foldlM
          (comparePair (minimizerOf table.states))
          (createPairs states (buckets.arrange (minimizerOf table.states).buckets)) = some pairs ∧
      Sound table pairs ∧ ∀ key, IsPair table key → ∀ symbol, Compared table key symbol pairs := by
  have start : Sound table (createPairs states
      (buckets.arrange (minimizerOf table.states).buckets)) := by
    refine ⟨mem_createPairs buckets states _, fun marked => ?_, fun member => ?_, fun marked => ?_⟩
    · cases marked
    · cases member
    · cases marked
  obtain ⟨pairs, ran, sound, -, compared⟩ := @Loops.foldlM_reaches _ _
    (keys.arrange (createPairs states (buckets.arrange (minimizerOf table.states).buckets)).keys)
    (comparePair (minimizerOf table.states)) (Sound table) Grows
    (fun key pairs => ∀ symbol, Compared table key symbol pairs) Grows.refl Grows.trans
    (fun compared grows symbol => (compared symbol).grows grows)
    (fun pairs key member sound => by
      rw [(keys.perm _).mem_iff] at member
      exact comparePair_spec sound ((mem_createPairs buckets states key).mp member))
    _ start
  refine ⟨pairs, ran, sound, fun key pair => compared key ?_⟩
  rw [(keys.perm _).mem_iff]
  exact (mem_createPairs buckets states key).mpr pair

theorem SameBucket.symm (same : SameBucket table left right) : SameBucket table right left := by
  obtain ⟨leftState, rightState, leftIn, rightIn, ids⟩ := same
  exact ⟨rightState, leftState, rightIn, leftIn, ids.symm⟩

theorem sameBucket_of_isPair (pair : IsPair table (statePairKey left right)) :
    SameBucket table left right := by
  obtain ⟨left', right', -, bucket, same⟩ := pair
  cases statePairKey_cases left right with
  | inl kept =>
    cases statePairKey_cases left' right' with
    | inl kept' =>
      rw [kept, kept'] at same
      cases same
      exact bucket
    | inr swapped' =>
      rw [kept, swapped'] at same
      cases same
      exact bucket.symm
  | inr swapped =>
    cases statePairKey_cases left' right' with
    | inl kept' =>
      rw [swapped, kept'] at same
      cases same
      exact bucket.symm
    | inr swapped' =>
      rw [swapped, swapped'] at same
      cases same
      exact bucket

theorem successors_unmarked (sound : Sound table pairs)
    (compared : ∀ key, IsPair table key → ∀ symbol, Compared table key symbol pairs)
    {leftNext rightNext : Str} (pair : IsPair table (statePairKey left right))
    (unmarked : ¬Marked pairs (statePairKey left right))
    (leftStep : table.system.next left symbol = some leftNext)
    (rightStep : table.system.next right symbol = some rightNext) :
    leftNext = rightNext ∨ IsPair table (statePairKey leftNext rightNext) ∧
      ¬Marked pairs (statePairKey leftNext rightNext) := by
  have waits : leftNext = rightNext ∨ Marked pairs (statePairKey left right) ∨
      statePairKey leftNext rightNext ∈ pairs.keys ∧
        statePairKey left right ∈ (pairs.value (statePairKey leftNext rightNext)).parents := by
    have holds := compared _ pair symbol
    cases statePairKey_cases left right with
    | inl kept =>
      exact holds leftNext rightNext (by rw [kept]; exact leftStep) (by rw [kept]; exact rightStep)
    | inr swapped =>
      obtain same | rest := holds rightNext leftNext (by rw [swapped]; exact rightStep)
        (by rw [swapped]; exact leftStep)
      · exact .inl same.symm
      · rw [statePairKey_comm leftNext rightNext]
        exact .inr rest
  obtain same | marked | ⟨present, parent⟩ := waits
  · exact .inl same
  · exact absurd marked unmarked
  · exact .inr ⟨sound.keys.mp present, fun marked =>
      unmarked (sound.closed marked _ parent)⟩

theorem bisimilar_of_unmarked (sound : Sound table pairs)
    (compared : ∀ key, IsPair table key → ∀ symbol, Compared table key symbol pairs)
    (pair : IsPair table (statePairKey left right))
    (unmarked : ¬Marked pairs (statePairKey left right)) : Bisimilar table.system left right := by
  refine ⟨fun left right => left = right ∨
    IsPair table (statePairKey left right) ∧ ¬Marked pairs (statePairKey left right), ?_,
    .inr ⟨pair, unmarked⟩⟩
  intro left right related
  cases related with
  | inl same =>
    subst same
    refine ⟨rfl, fun symbol => ?_⟩
    cases table.system.next left symbol with
    | none => exact .none
    | some next => exact .some (.inl rfl)
  | inr related =>
    obtain ⟨pair, unmarked⟩ := related
    obtain ⟨leftState, rightState, leftIn, rightIn, ids⟩ := sameBucket_of_isPair pair
    refine ⟨?_, fun symbol => ?_⟩
    · simp only [Table.system, find_state leftIn, find_state rightIn]
      exact congrArg Sum.inl (congrArg fst ids)
    · have symbols : leftState.1.map fst = rightState.1.map fst := congrArg snd ids
      have present : (table.system.next left symbol).isSome ↔
          (table.system.next right symbol).isSome := by
        rw [next_eq leftIn, next_eq rightIn, ← mem_keys, ← mem_keys, symbols]
      cases leftStep : table.system.next left symbol with
      | none =>
        cases rightStep : table.system.next right symbol with
        | none => exact .none
        | some rightNext => simp [leftStep, rightStep] at present
      | some leftNext =>
        cases rightStep : table.system.next right symbol with
        | none => simp [leftStep, rightStep] at present
        | some rightNext =>
          exact .some (successors_unmarked sound compared pair unmarked leftStep rightStep)

end Comparing

section Classes

variable {table : Table} {pairs : StatePairs}

/-- Pairs of these states are present, and marked if and only if the states are not bisimilar. -/
def Decides (table : Table) (pairs : StatePairs) (names : List Str) : Prop :=
  ∀ left ∈ names, ∀ right ∈ names, left ≠ right → statePairKey left right ∈ pairs.keys ∧
    (Marked pairs (statePairKey left right) ↔ ¬Bisimilar table.system left right)

theorem splitStates_spec {last : Str}
    (decided : ∀ state ∈ states, statePairKey last state ∈ pairs.keys ∧
      (Marked pairs (statePairKey last state) ↔ ¬Bisimilar table.system last state)) :
    ∃ equal unequal, splitStates pairs last states = some (equal, unequal) ∧
      equal.length + unequal.length = states.length ∧ unequal.Sublist states ∧
      (∀ state, state ∈ equal ↔ state ∈ states ∧ Bisimilar table.system last state) ∧
      ∀ state, state ∈ unequal ↔ state ∈ states ∧ ¬Bisimilar table.system last state := by
  induction states with
  | nil => exact ⟨[], [], rfl, rfl, List.Sublist.refl [], by simp, by simp⟩
  | cons state states step =>
    obtain ⟨equal, unequal, split, lengths, sub, inEqual, inUnequal⟩ :=
      step (forall_mem_cons.mp decided).2
    obtain ⟨present, marked⟩ := decided state mem_cons_self
    rw [splitStates, lookupPairValue, if_pos present]
    simp only [split, bind_eq_bind, bind_some]
    by_cases isMarked : Marked pairs (statePairKey last state)
    · have unlike := marked.mp isMarked
      rw [if_pos (show (pairs.value (statePairKey last state)).marked = true from isMarked)]
      refine ⟨equal, state :: unequal, rfl, by simp; omega, sub.cons_cons state, ?_, ?_⟩
      · intro other
        rw [inEqual, mem_cons]
        constructor
        · exact fun holds => ⟨.inr holds.1, holds.2⟩
        · rintro ⟨same | member, alike⟩
          · exact absurd (same ▸ alike) unlike
          · exact ⟨member, alike⟩
      · intro other
        rw [mem_cons, mem_cons, inUnequal]
        constructor
        · rintro (same | holds)
          · exact ⟨.inl same, same ▸ unlike⟩
          · exact ⟨.inr holds.1, holds.2⟩
        · rintro ⟨same | member, differs⟩
          · exact .inl same
          · exact .inr ⟨member, differs⟩
    · have alike : Bisimilar table.system last state := by
        by_contra unlike
        exact isMarked (marked.mpr unlike)
      rw [if_neg (show ¬(pairs.value (statePairKey last state)).marked = true from isMarked)]
      refine ⟨state :: equal, unequal, rfl, by simp; omega, sub.cons state, ?_, ?_⟩
      · intro other
        rw [mem_cons, mem_cons, inEqual]
        constructor
        · rintro (same | holds)
          · exact ⟨.inl same, same ▸ alike⟩
          · exact ⟨.inr holds.1, holds.2⟩
        · rintro ⟨same | member, holds⟩
          · exact .inl same
          · exact .inr ⟨member, holds⟩
      · intro other
        rw [inUnequal, mem_cons]
        constructor
        · exact fun holds => ⟨.inr holds.1, holds.2⟩
        · rintro ⟨same | member, differs⟩
          · exact absurd (same ▸ alike) differs
          · exact ⟨member, differs⟩

/-- A map of some states to representatives of their classes. -/
structure Collected (table : Table) (names : List Str) (classes : List (Str × Str)) : Prop where
  sends : ∀ {state representative}, (state, representative) ∈ classes →
    state ∈ names ∧ representative ∈ names ∧ Bisimilar table.system state representative ∧
      representative ∉ classes.map fst
  represented : ∀ {state}, state ∈ names → ∃ representative ∈ names,
    Bisimilar table.system state representative ∧ representative ∉ classes.map fst
  unique : ∀ {left right}, left ∈ names → right ∈ names → left ∉ classes.map fst →
    right ∉ classes.map fst → Bisimilar table.system left right → left = right

theorem collectClasses_spec {rounds : Nat} {names : List Str} (enough : names.length ≤ rounds)
    (distinct : names.Nodup) (decided : Decides table pairs names) :
    ∃ classes, collectClasses pairs rounds names = some classes ∧
      Collected table names classes := by
  induction rounds generalizing names with
  | zero =>
    cases names with
    | nil => exact ⟨[], rfl, ⟨by simp, by simp, by simp⟩⟩
    | cons name names => simp at enough
  | succ rounds step =>
    cases names with
    | nil => exact ⟨[], rfl, ⟨by simp, by simp, by simp⟩⟩
    | cons name names =>
      have parts := List.dropLast_append_getLast (cons_ne_nil name names)
      rw [collectClasses]
      generalize (name :: names).dropLast = rest at parts
      generalize (name :: names).getLast (cons_ne_nil name names) = last at parts
      rw [← parts] at enough distinct decided ⊢
      have apart : last ∉ rest := fun member =>
        (nodup_append.mp distinct).2.2 last member last (mem_singleton_self _) rfl
      have inRest : ∀ {state}, state ∈ rest → state ∈ rest ++ [last] :=
        fun member => mem_append_left _ member
      have isLast : last ∈ rest ++ [last] := by simp
      obtain ⟨equal, unequal, split, lengths, sub, inEqual, inUnequal⟩ :=
        splitStates_spec fun state member =>
          decided last isLast state (inRest member) fun same => apart (same ▸ member)
      have fewer : unequal.length ≤ rounds := by
        rw [length_append, length_singleton] at enough
        omega
      obtain ⟨classes, collected, sends, represented, unique⟩ :=
        step fewer ((nodup_append.mp distinct).1.sublist sub)
          fun left leftIn right rightIn =>
            decided left (inRest (sub.subset leftIn)) right (inRest (sub.subset rightIn))
      have keys : ∀ state, state ∈ (equal.map (·, last) ++ classes).map fst ↔
          state ∈ equal ∨ state ∈ classes.map fst := by
        intro state
        simp [map_append, map_map, comp_def]
      have keysUnequal : ∀ {state}, state ∈ classes.map fst → state ∈ unequal := by
        intro state member
        obtain ⟨entry, inside, same⟩ := mem_map.mp member
        exact same ▸ (sends inside).1
      have lastFree : last ∉ (equal.map (·, last) ++ classes).map fst := by
        rw [keys]
        rintro (inside | inside)
        · exact apart ((inEqual last).mp inside).1
        · exact apart (sub.subset (keysUnequal inside))
      have free : ∀ {state}, state ∈ unequal → state ∉ classes.map fst →
          state ∉ (equal.map (·, last) ++ classes).map fst := by
        intro state member fresh
        rw [keys]
        rintro (inside | inside)
        · exact ((inUnequal state).mp member).2 ((inEqual state).mp inside).2
        · exact fresh inside
      refine ⟨equal.map (·, last) ++ classes, ?_, ⟨?_, ?_, ?_⟩⟩
      · simp only [split, bind_eq_bind, bind_some, collected, pure_def]
      · intro state representative member
        cases mem_append.mp member with
        | inl here =>
          obtain ⟨other, inside, same⟩ := mem_map.mp here
          cases same
          obtain ⟨present, alike⟩ := (inEqual state).mp inside
          exact ⟨inRest present, isLast, alike.symm, lastFree⟩
        | inr later =>
          obtain ⟨stateIn, representativeIn, alike, fresh⟩ := sends later
          exact ⟨inRest (sub.subset stateIn), inRest (sub.subset representativeIn), alike,
            free representativeIn fresh⟩
      · intro state member
        by_cases alike : Bisimilar table.system last state
        · exact ⟨last, isLast, alike.symm, lastFree⟩
        · have inside : state ∈ unequal := by
            rw [inUnequal]
            cases mem_append.mp member with
            | inl before => exact ⟨before, alike⟩
            | inr final =>
              rw [mem_singleton.mp final] at alike
              exact absurd (Bisimilar.refl last) alike
          obtain ⟨representative, present, holds, fresh⟩ := represented inside
          exact ⟨representative, inRest (sub.subset present), holds, free present fresh⟩
      · intro left right leftIn rightIn leftFree rightFree alike
        have settled : ∀ {state}, state ∈ rest ++ [last] →
            state ∉ (equal.map (·, last) ++ classes).map fst →
            state = last ∨ state ∈ unequal ∧ state ∉ classes.map fst := by
          intro state member fresh
          rw [keys, not_or] at fresh
          cases mem_append.mp member with
          | inl before =>
            have unlike : ¬Bisimilar table.system last state := fun holds =>
              fresh.1 ((inEqual state).mpr ⟨before, holds⟩)
            exact .inr ⟨(inUnequal state).mpr ⟨before, unlike⟩, fresh.2⟩
          | inr final => exact .inl (mem_singleton.mp final)
        obtain same | ⟨leftUnequal, leftFresh⟩ := settled leftIn leftFree
        · obtain same' | ⟨rightUnequal, -⟩ := settled rightIn rightFree
          · rw [same, same']
          · exact absurd (same ▸ alike) ((inUnequal right).mp rightUnequal).2
        · obtain same' | ⟨rightUnequal, rightFresh⟩ := settled rightIn rightFree
          · exact absurd (same' ▸ alike).symm ((inUnequal left).mp leftUnequal).2
          · exact unique leftUnequal rightUnequal leftFresh rightFresh alike

theorem decides_of_compared (sound : Sound table pairs)
    (compared : ∀ key, IsPair table key → ∀ symbol, Compared table key symbol pairs)
    {names : List Str} (bucket : ∀ left ∈ names, ∀ right ∈ names, SameBucket table left right) :
    Decides table pairs names := by
  intro left leftIn right rightIn apart
  have pair : IsPair table (statePairKey left right) :=
    ⟨left, right, apart, bucket left leftIn right rightIn, rfl⟩
  refine ⟨sound.keys.mpr pair, fun marked => differ_statePairKey.mp (sound.differ marked),
    fun unlike => ?_⟩
  by_contra unmarked
  exact unlike (bisimilar_of_unmarked sound compared pair unmarked)

/-- The states that the computed map does not send anywhere. -/
def Chosen (table : Table) (map : List (Str × Str)) (name : Str) : Prop :=
  name ∈ table.states.map fst ∧ find name map = none

theorem collectAll_spec (buckets : Iteration (BucketId × Bucket))
    (states : Iteration (Str × Transitions)) (sound : Sound table pairs)
    (compared : ∀ key, IsPair table key → ∀ symbol, Compared table key symbol pairs) :
    ∃ classes, ((buckets.arrange (minimizerOf table.states).buckets).mapM fun bucket =>
        let allStates := (states.arrange bucket.2).map fst
        collectClasses pairs allStates.length allStates) = some classes ∧
      Collected table (table.states.map fst) classes.flatten := by
  have own : ∀ bucket ∈ buckets.arrange (minimizerOf table.states).buckets,
      ∃ classes, collectClasses pairs ((states.arrange bucket.2).map fst).length
        ((states.arrange bucket.2).map fst) = some classes ∧
        Collected table ((states.arrange bucket.2).map fst) classes := by
    intro bucket member
    have listed := (buckets.perm _).mem_iff.mp member
    refine collectClasses_spec le_rfl
      (((states.perm bucket.2).map fst).nodup_iff.mpr (bucket_nodup listed))
      (decides_of_compared sound compared fun left leftIn right rightIn => ?_)
    obtain ⟨leftState, leftMember, leftId⟩ := (mem_names listed).mp leftIn
    obtain ⟨rightState, rightMember, rightId⟩ := (mem_names listed).mp rightIn
    exact ⟨_, _, leftMember, rightMember, leftId.symm.trans rightId⟩
  obtain ⟨classes, success⟩ : ∃ classes,
      ((buckets.arrange (minimizerOf table.states).buckets).mapM fun bucket =>
        collectClasses pairs ((states.arrange bucket.2).map fst).length
          ((states.arrange bucket.2).map fst)) = some classes := by
    refine Option.ne_none_iff_exists'.mp fun fails => ?_
    obtain ⟨bucket, member, failed⟩ := Loops.mapM_eq_none.mp fails
    obtain ⟨classes, called, -⟩ := own bucket member
    rw [failed] at called
    cases called
  refine ⟨classes, success, ?_⟩
  -- a state is mapped by the classes of its own bucket or not at all
  have local' : ∀ {state}, state ∈ table.states.map fst → ∃ names part,
      state ∈ names ∧ (∀ other ∈ names, other ∈ table.states.map fst) ∧
      (∀ other ∈ table.states.map fst, Bisimilar table.system state other → other ∈ names) ∧
      Collected table names part ∧ ∀ other ∈ names, ∀ representative,
        (other, representative) ∈ classes.flatten ↔ (other, representative) ∈ part := by
    intro state member
    obtain ⟨⟨name, stored⟩, inside, same⟩ := mem_map.mp member
    cases same
    obtain ⟨bucket, listed, -⟩ := bucket_of_state inside
    have arranged := (buckets.perm _).mem_iff.mpr listed
    obtain ⟨part, called, collected⟩ := own _ arranged
    refine ⟨_, part, (mem_names listed).mpr ⟨stored, inside, rfl⟩, ?_, ?_, collected, ?_⟩
    · intro other otherIn
      obtain ⟨otherState, otherMember, -⟩ := (mem_names listed).mp otherIn
      exact mem_map.mpr ⟨_, otherMember, rfl⟩
    · intro other otherIn alike
      obtain ⟨⟨otherName, otherState⟩, otherMember, same⟩ := mem_map.mp otherIn
      cases same
      exact (mem_names listed).mpr
        ⟨otherState, otherMember, sameBucket_of_bisimilar inside otherMember alike⟩
    · intro other otherIn representative
      rw [List.mem_flatten]
      constructor
      · intro found
        obtain ⟨part', partIn, entry⟩ := found
        obtain ⟨bucket', arranged', called'⟩ := Loops.exists_of_mem_mapM success partIn
        obtain ⟨part'', called'', collected'⟩ := own bucket' arranged'
        rw [called'] at called''
        cases called''
        have listed' := (buckets.perm _).mem_iff.mp arranged'
        obtain ⟨otherState, otherMember, id⟩ := (mem_names listed).mp otherIn
        obtain ⟨otherState', otherMember', id'⟩ := (mem_names listed').mp (collected'.sends entry).1
        have equal := (find_state otherMember).symm.trans (find_state otherMember')
        cases some.inj equal
        have buckets' := List.inj_on_of_nodup_map (Grouping.group_nodup _) listed' listed
          (id'.trans id.symm)
        rw [buckets'] at called'
        rw [called] at called'
        cases called'
        exact entry
      · intro entry
        obtain ⟨part', partIn, called'⟩ := Loops.mem_of_mapM success arranged
        rw [called] at called'
        cases called'
        exact ⟨part, partIn, entry⟩
  have keys : ∀ {state}, state ∈ classes.flatten.map fst ↔
      ∃ representative, (state, representative) ∈ classes.flatten := by
    intro state
    rw [mem_map]
    constructor
    · rintro ⟨⟨name, representative⟩, entry, rfl⟩
      exact ⟨representative, entry⟩
    · rintro ⟨representative, entry⟩
      exact ⟨_, entry, rfl⟩
  have mapped : ∀ {state}, state ∈ classes.flatten.map fst →
      state ∈ table.states.map fst := by
    intro state member
    obtain ⟨representative, entry⟩ := keys.mp member
    obtain ⟨part, partIn, inside⟩ := List.mem_flatten.mp entry
    obtain ⟨bucket, arranged, called⟩ := Loops.exists_of_mem_mapM success partIn
    obtain ⟨part', called', collected⟩ := own bucket arranged
    rw [called] at called'
    cases called'
    obtain ⟨stored, present, -⟩ :=
      (mem_names ((buckets.perm _).mem_iff.mp arranged)).mp (collected.sends inside).1
    exact mem_map.mpr ⟨_, present, rfl⟩
  have fresh : ∀ {names : List Str} {part : List (Str × Str)}, (∀ other ∈ names, ∀ representative,
      (other, representative) ∈ classes.flatten ↔ (other, representative) ∈ part) →
      ∀ {other}, other ∈ names → (other ∉ classes.flatten.map fst ↔ other ∉ part.map fst) := by
    intro names part agree other inside
    rw [keys, mem_map]
    refine not_congr ⟨?_, ?_⟩
    · rintro ⟨representative, entry⟩
      exact ⟨_, (agree other inside representative).mp entry, rfl⟩
    · rintro ⟨⟨other', representative⟩, entry, rfl⟩
      exact ⟨representative, (agree other' inside representative).mpr entry⟩
  constructor
  · intro state representative entry
    have member := mapped (keys.mpr ⟨_, entry⟩)
    obtain ⟨names, part, inside, global, -, collected, agree⟩ := local' member
    obtain ⟨-, representativeIn, alike, free⟩ :=
      collected.sends ((agree state inside representative).mp entry)
    exact ⟨member, global _ representativeIn, alike, (fresh agree representativeIn).mpr free⟩
  · intro state member
    obtain ⟨names, part, inside, global, -, collected, agree⟩ := local' member
    obtain ⟨representative, present, alike, free⟩ := collected.represented inside
    exact ⟨representative, global _ present, alike, (fresh agree present).mpr free⟩
  · intro left right leftIn rightIn leftFree rightFree alike
    obtain ⟨names, part, inside, -, closed, collected, agree⟩ := local' leftIn
    have inside' := closed right rightIn alike
    exact collected.unique inside inside' ((fresh agree inside).mp leftFree)
      ((fresh agree inside').mp rightFree) alike

theorem computeBisimulation_table (buckets : Iteration (BucketId × Bucket))
    (states : Iteration (Str × Transitions)) (keys : Iteration StatePairKey) (table : Table) :
    ∃ minimizer map, table.minimizer = some minimizer ∧
      computeBisimulation buckets states keys minimizer = some map ∧
      (∀ state representative, find state map = some representative ↔
        state ∈ table.states.map fst ∧ ¬Chosen table map state ∧ Chosen table map representative ∧
          Bisimilar table.system state representative) ∧
      (∀ state ∈ table.states.map fst, ∃! representative, Chosen table map representative ∧
          Bisimilar table.system state representative) ∧
      ∀ state representative, find state map = some representative →
        find representative map = none := by
  obtain ⟨pairs, ran, sound, compared⟩ := compareAll_spec buckets states keys table
  obtain ⟨classes, success, collected⟩ := collectAll_spec buckets states sound compared
  have unmapped : ∀ {state}, state ∉ classes.flatten.map fst ↔
      find state classes.flatten = none := by
    intro state
    rw [mem_keys, not_isSome_iff_eq_none]
  have sends : ∀ state representative, find state classes.flatten = some representative →
      state ∈ table.states.map fst ∧ Chosen table classes.flatten representative ∧
        Bisimilar table.system state representative := by
    intro state representative found
    obtain ⟨stateIn, representativeIn, alike, free⟩ := collected.sends (mem_of_find found)
    exact ⟨stateIn, ⟨representativeIn, unmapped.mp free⟩, alike⟩
  have unique : ∀ {left right}, Chosen table classes.flatten left →
      Chosen table classes.flatten right → Bisimilar table.system left right →
      left = right := fun left right alike =>
    collected.unique left.1 right.1 (unmapped.mpr left.2) (unmapped.mpr right.2) alike
  refine ⟨minimizerOf table.states, classes.flatten, minimizer_eq table, ?_, ?_, ?_, ?_⟩
  · unfold computeBisimulation
    simp only [ran, success, bind_eq_bind, bind_some, pure_def]
  · intro state representative
    constructor
    · intro found
      obtain ⟨stateIn, isRepresentative, alike⟩ := sends state representative found
      refine ⟨stateIn, fun self => ?_, isRepresentative, alike⟩
      rw [self.2] at found
      cases found
    · intro holds
      obtain ⟨stateIn, notSelf, isRepresentative, alike⟩ := holds
      cases found : find state classes.flatten with
      | none => exact absurd ⟨stateIn, found⟩ notSelf
      | some other =>
        obtain ⟨-, otherRepresentative, otherAlike⟩ := sends state other found
        rw [unique otherRepresentative isRepresentative (otherAlike.symm.trans alike)]
  · intro state stateIn
    obtain ⟨representative, present, alike, free⟩ := collected.represented stateIn
    refine ⟨representative, ⟨⟨present, unmapped.mp free⟩, alike⟩, fun other holds => ?_⟩
    exact unique holds.1 ⟨present, unmapped.mp free⟩ (holds.2.symm.trans alike)
  · intro state representative found
    exact (sends state representative found).2.1.2

end Classes

section Complete

/-- A complete transition graph: states with different names, each with its transitions and the id
of its content, and every target of a transition is a state. -/
structure Graph where
  states : List (Str × Transitions × Str)
  distinct : (states.map fst).Nodup
  ordered : ∀ state ∈ states, Ascending state.2.1
  complete : ∀ state ∈ states, ∀ transition ∈ state.2.1, transition.2 ∈ states.map fst

variable (graph : Graph)

/-- The transition system of a graph. -/
def Graph.system : System Str Str (Option Str) where
  label := fun name => (find name graph.states).map snd
  next := fun name symbol => (find name graph.states).bind fun state => find symbol state.1

/-- The minimiser to which the states of a graph have been added. -/
def Graph.minimizer : Option Minimizer :=
  graph.states.foldlM (fun minimizer state =>
    addState minimizer state.1 state.2.1 state.2.2) { buckets := [], bucketsByState := [] }

/-- A graph as a table. -/
def Graph.table : Table where
  states := graph.states
  distinct := graph.distinct
  ordered := graph.ordered

/-- The states that the computed map does not send anywhere. -/
def Representative (graph : Graph) (map : List (Str × Str)) (name : Str) : Prop :=
  name ∈ graph.states.map fst ∧ find name map = none

theorem find_of_mem_states {name : Str} (member : name ∈ graph.states.map fst) :
    ∃ state, find name graph.states = some state := by
  obtain ⟨⟨_, state⟩, inside, rfl⟩ := mem_map.mp member
  exact ⟨state, @find_state graph.table _ _ inside⟩

theorem next_mem_states {name next : Str} (step : graph.system.next name symbol = some next) :
    next ∈ graph.states.map fst := by
  obtain ⟨state, found, target⟩ := bind_eq_some_iff.mp step
  exact graph.complete _ (mem_of_find found) _ (mem_of_find target)

/-- Related names that are states. -/
def Inside (graph : Graph) (related : Str → Str → Prop) (left right : Str) : Prop :=
  left ∈ graph.states.map fst ∧ right ∈ graph.states.map fst ∧ related left right

theorem rel_states {related : Str → Str → Prop}
    (inside : Option.Rel related (graph.system.next left symbol) (graph.system.next right symbol)) :
    Option.Rel (Inside graph related) (graph.system.next left symbol)
      (graph.system.next right symbol) := by
  cases leftStep : graph.system.next left symbol with
  | none =>
    cases rightStep : graph.system.next right symbol with
    | none => exact .none
    | some rightNext => rw [leftStep, rightStep] at inside; cases inside
  | some leftNext =>
    cases rightStep : graph.system.next right symbol with
    | none => rw [leftStep, rightStep] at inside; cases inside
    | some rightNext =>
      rw [leftStep, rightStep] at inside
      cases inside with
      | some holds =>
        exact .some ⟨next_mem_states graph leftStep, next_mem_states graph rightStep, holds⟩

theorem bisimilar_table (leftIn : left ∈ graph.states.map fst)
    (rightIn : right ∈ graph.states.map fst) :
    Bisimilar graph.table.system left right ↔ Bisimilar graph.system left right := by
  constructor
  · intro alike
    refine ⟨Inside graph (Bisimilar graph.table.system), ?_, leftIn, rightIn, alike⟩
    rintro left right ⟨leftIn, rightIn, alike⟩
    obtain ⟨label, next⟩ := bisimilar_isBisimulation graph.table.system left right alike
    refine ⟨?_, fun symbol => rel_states graph (next symbol)⟩
    obtain ⟨leftState, leftFound⟩ := find_of_mem_states graph leftIn
    obtain ⟨rightState, rightFound⟩ := find_of_mem_states graph rightIn
    simp only [Table.system, Graph.table, leftFound, rightFound] at label
    simp only [Graph.system, leftFound, rightFound, map_some, Sum.inl.inj label]
  · intro alike
    refine ⟨Inside graph (Bisimilar graph.system), ?_, leftIn, rightIn, alike⟩
    rintro left right ⟨leftIn, rightIn, alike⟩
    obtain ⟨label, next⟩ := bisimilar_isBisimulation graph.system left right alike
    refine ⟨?_, fun symbol => rel_states graph (next symbol)⟩
    obtain ⟨leftState, leftFound⟩ := find_of_mem_states graph leftIn
    obtain ⟨rightState, rightFound⟩ := find_of_mem_states graph rightIn
    simp only [Graph.system, leftFound, rightFound, map_some] at label
    simp only [Table.system, Graph.table, leftFound, rightFound, some.inj label]

/-- `ComputeBisimulation` returns a map that sends a state to a state exactly if the first is not
the representative of its class and the second is; every class has exactly one representative, and
no state that the map sends to is sent on. -/
theorem computeBisimulation_correct (buckets : Iteration (BucketId × Bucket))
    (states : Iteration (Str × Transitions)) (keys : Iteration StatePairKey) (graph : Graph) :
    ∃ minimizer map, graph.minimizer = some minimizer ∧
      computeBisimulation buckets states keys minimizer = some map ∧
      (∀ state representative, find state map = some representative ↔
        state ∈ graph.states.map fst ∧ ¬Representative graph map state ∧
          Representative graph map representative ∧
          Bisimilar graph.system state representative) ∧
      (∀ state ∈ graph.states.map fst, ∃! representative, Representative graph map representative ∧
          Bisimilar graph.system state representative) ∧
      ∀ state representative, find state map = some representative →
        find representative map = none := by
  obtain ⟨minimizer, map, added, computed, sends, unique, twice⟩ :=
    computeBisimulation_table buckets states keys graph.table
  have same : ∀ state ∈ graph.states.map fst, ∀ representative,
      (Chosen graph.table map representative ∧ Bisimilar graph.table.system state representative) ↔
        Representative graph map representative ∧ Bisimilar graph.system state representative :=
    fun state member representative =>
      and_congr_right fun chosen => bisimilar_table graph member chosen.1
  refine ⟨minimizer, map, added, computed, fun state representative => ?_, fun state member => ?_,
    twice⟩
  · rw [sends]
    refine and_congr_right fun member => and_congr Iff.rfl ?_
    exact same state member representative
  · obtain ⟨representative, chosen, only⟩ := unique state member
    exact ⟨representative, (same state member representative).mp chosen,
      fun other holds => only other ((same state member other).mpr holds)⟩

end Complete

end Jst.Verif.Minimization
