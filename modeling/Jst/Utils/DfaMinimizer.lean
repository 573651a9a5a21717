import Jst.Data.Bytes
import Jst.Data.Grouping
import Jst.Data.SortedMap
/-!
# Minimising automata

`DFAMinimizer` finds the states of a transition graph that cannot be told apart. States with the
same content and the same transition symbols share a bucket; the pairs of states in a bucket are
marked as distinguishable until nothing changes. Unordered maps are lists here, and the order in
which one is iterated over is a parameter.
-/
namespace Jst.DfaMinimizer

open SortedMap

/-- `transitions_t` — the target of every symbol. -/
abbrev Transitions := List (Str × Str)

/-- What a bucket id is the text of: the content id and the transition symbols. -/
abbrev BucketId := Str × List Str

/-- `Bucket`, by its states; its symbols are those of its id. -/
abbrev Bucket := List (Str × Transitions)

/-- `StatePairKey` — two names, in order. -/
abbrev StatePairKey := Str × Str

/-- The key of two states. -/
def statePairKey (first second : Str) : StatePairKey :=
  if first < second then (first, second) else (second, first)

/-- The order in which an unordered map is iterated over. -/
structure Iteration (Item : Type) where
  arrange : List Item → List Item
  perm : ∀ items, (arrange items).Perm items

/-- `DFAMinimizer`. -/
structure Minimizer where
  buckets : List (BucketId × Bucket)
  bucketsByState : List (Str × BucketId)

/-- `DFAMinimizer::AddState` — a name that was added already violates a contract. -/
def addState (minimizer : Minimizer) (name : Str) (transitions : Transitions) (contentId : Str) :
    Option Minimizer :=
  let bucketId := (contentId, transitions.map fst)
  match find name minimizer.bucketsByState with
  | some _ => none
  | none => some {
      buckets := Grouping.add bucketId (name, transitions) minimizer.buckets
      bucketsByState := minimizer.bucketsByState ++ [(name, bucketId)] }

structure StatePairValue where
  parents : List StatePairKey
  marked : Bool

/-- `state_pairs_t` — the keys that are present, and the values of keys. -/
structure StatePairs where
  keys : List StatePairKey
  value : StatePairKey → StatePairValue

def lookupPairValue (pairs : StatePairs) (key : StatePairKey) : Option StatePairValue :=
  if key ∈ pairs.keys then some (pairs.value key) else none

/-- Replace the value of a key. -/
def StatePairs.set (pairs : StatePairs) (key : StatePairKey) (value : StatePairValue) :
    StatePairs where
  keys := pairs.keys
  value := fun other => if other = key then value else pairs.value other

/-- `MarkPairValue` — mark a pair and all its parents that are not marked yet, recursively. The
first argument bounds the depth of the recursion. -/
def markPairValue : Nat → StatePairs → StatePairKey → Option StatePairs
  | 0, _, _ => none
  | depth + 1, pairs, key =>
    (pairs.value key).parents.foldlM
      (fun pairs parent =>
        if (pairs.value parent).marked then some pairs else markPairValue depth pairs parent)
      (pairs.set key { pairs.value key with marked := true })

/-- The pairs of every state with the states before it. -/
def pairsWithEarlier (earlier : List Str) : List Str → List StatePairKey
  | [] => []
  | state :: states =>
    earlier.map (statePairKey state) ++ pairsWithEarlier (earlier ++ [state]) states

/-- `CreatePairs` — all pairs of states in the same bucket. -/
def createPairs (states : Iteration (Str × Transitions)) (buckets : List (BucketId × Bucket)) :
    StatePairs where
  keys := buckets.flatMap fun bucket =>
    pairsWithEarlier [] ((states.arrange bucket.2).map fst)
  value := fun _ => { parents := [], marked := false }

/-- `ComputeBisimulation`, the first loop: one symbol of one pair. -/
def compareSymbol (bucket : Bucket) (key : StatePairKey) (pairs : StatePairs) (symbol : Str) :
    Option StatePairs := do
  let left ← find symbol (← find key.1 bucket)
  let right ← find symbol (← find key.2 bucket)
  if left = right then return pairs
  let mark := markPairValue (pairs.keys.length + 1) pairs key
  match lookupPairValue pairs (statePairKey left right) with
  | none => mark
  | some value =>
    if value.marked then mark
    else
      return pairs.set (statePairKey left right) { value with parents := value.parents ++ [key] }

/-- `ComputeBisimulation`, the first loop: one pair. -/
def comparePair (minimizer : Minimizer) (pairs : StatePairs) (key : StatePairKey) :
    Option StatePairs := do
  let bucketId ← find key.1 minimizer.bucketsByState
  let bucket ← (minimizer.buckets.find? fun bucket => bucket.1 = bucketId).map snd
  bucketId.2.foldlM (compareSymbol bucket key) pairs

/-- `ComputeBisimulation`, the inner loop over the remaining states of a bucket: those that cannot
be told apart from `last`, and those that can. -/
def splitStates (pairs : StatePairs) (last : Str) : List Str → Option (List Str × List Str)
  | [] => some ([], [])
  | state :: states => do
    let value ← lookupPairValue pairs (statePairKey last state)
    let (equal, unequal) ← splitStates pairs last states
    if value.marked then return (equal, state :: unequal) else return (state :: equal, unequal)

/-- `ComputeBisimulation`, the loop over the classes of a bucket. Every round removes a state, so at
most as many rounds as there are states are needed. -/
def collectClasses (pairs : StatePairs) : Nat → List Str → Option (List (Str × Str))
  | _, [] => some []
  | 0, _ :: _ => none
  | rounds + 1, state :: states => do
    let allStates := (state :: states).dropLast
    let last := (state :: states).getLast (cons_ne_nil _ _)
    let (equal, unequal) ← splitStates pairs last allStates
    return equal.map (·, last) ++ (← collectClasses pairs rounds unequal)

def computeBisimulation (buckets : Iteration (BucketId × Bucket))
    (states : Iteration (Str × Transitions)) (keys : Iteration StatePairKey)
    (minimizer : Minimizer) : Option (List (Str × Str)) := do
  let pairs := createPairs states (buckets.arrange minimizer.buckets)
  let pairs ← (keys.arrange pairs.keys).foldlM (comparePair minimizer) pairs
  let classes ← (buckets.arrange minimizer.buckets).mapM fun bucket =>
    let allStates := (states.arrange bucket.2).map fst
    collectClasses pairs allStates.length allStates
  return classes.flatten

end Jst.DfaMinimizer
