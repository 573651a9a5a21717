import Jst.Data.SortedMap
/-!
# Linked maps

`linked_map.hpp` builds maps out of shared parts: a map object shadows the map behind its `next`
pointer with its own content, which is either another map object behind `content` or an ordered
map of its own, and it remembers the item list it has computed once. `Object` is that object with
its fields; `LinkedMap` is an object that the constructors and the queries can produce.
`Object.union` is the abstract reading: the right-biased union of all the parts.
-/
namespace Jst.Expression

open SortedMap

/-- The fields of a `LinkedMap` object. A null pointer is `none`; `items` is the write-once cache
of the item list. -/
inductive Object (K V : Type) where
  | mk (next content : Option (Object K V)) (map : List (K × V)) (items : Option (List (K × V)))

namespace Object

variable {K V : Type}

@[elab_as_elim]
theorem induction {motive : Object K V → Prop}
    (step : ∀ next content map items, (∀ part ∈ next, motive part) →
      (∀ part ∈ content, motive part) → motive (mk next content map items)) :
    ∀ object, motive object
  | mk none none map items => step _ _ map items (by simp) (by simp)
  | mk (some next) none map items => step _ _ map items
      (fun _ same => Option.some.inj same ▸ induction step next) (by simp)
  | mk none (some content) map items => step _ _ map items (by simp)
      (fun _ same => Option.some.inj same ▸ induction step content)
  | mk (some next) (some content) map items => step _ _ map items
      (fun _ same => Option.some.inj same ▸ induction step next)
      (fun _ same => Option.some.inj same ▸ induction step content)

variable [LinearOrder K]

/-- `LinkedMap::Find` — look into the content, or the own map without one, then behind `next`. -/
def find (key : K) : Object K V → Option V
  | mk next content map _ =>
    (match content with
      | some part => find key part
      | none => SortedMap.find key map).or
    (match next with
      | some part => find key part
      | none => none)

def contains (key : K) (object : Object K V) : Bool := (object.find key).isSome

/-- `LinkedMap::at` — a missing key throws an error that names the key. -/
def at' (key : K) (object : Object K V) : Except K V :=
  match object.find key with
  | some value => .ok value
  | none => .error key

def empty : Object K V → Bool
  | mk next content map _ =>
    (match content with
      | some part => empty part
      | none => map.isEmpty) &&
    (match next with
      | some part => empty part
      | none => true)

/-- The merge loop of `LinkedMap::ComputeSortedItems` over the items of the content and of the
next map: of two entries with one key the entry of the content is taken. -/
def merge : List (K × V) → List (K × V) → List (K × V)
  | [], nitems => nitems
  | citems, [] => citems
  | (ckey, cvalue) :: citems, (nkey, nvalue) :: nitems =>
    if ckey = nkey then (ckey, cvalue) :: merge citems nitems
    else if ckey < nkey then (ckey, cvalue) :: merge citems ((nkey, nvalue) :: nitems)
    else (nkey, nvalue) :: merge ((ckey, cvalue) :: citems) nitems
termination_by citems nitems => citems.length + nitems.length

/-- `LinkedMap::Items` — the remembered list, or else `LinkedMap::ComputeSortedItems`. -/
def sortedItems : Object K V → List (K × V)
  | mk next content map items =>
    match items with
    | some remembered => remembered
    | none =>
      merge
        (match content with
          | some part => sortedItems part
          | none => map)
        (match next with
          | some part => sortedItems part
          | none => [])

def size (object : Object K V) : Nat := object.sortedItems.length

def keys (object : Object K V) : List K := object.sortedItems.map Prod.fst

def values (object : Object K V) : List V := object.sortedItems.map Prod.snd

/-- `LinkedMap::operator==` — `same` tells whether both sides are one object in memory. -/
def equals [BEq V] (same : Bool) (object other : Object K V) : Bool :=
  same || (object.empty && other.empty) || object.sortedItems == other.sortedItems

/-- `hash_combine`, on 64-bit hashes. -/
def hashCombine (seed hash : UInt64) : UInt64 :=
  seed ^^^ (hash + (0x9e3779b9 : UInt64) + (seed <<< (6 : UInt64)) + (seed >>> (2 : UInt64)))

/-- The fold of `std::hash<LinkedMap>` over a list of items. -/
def hashItems (hashKey : K → UInt64) (hashValue : V → UInt64) (items : List (K × V)) : UInt64 :=
  items.foldl
    (fun seed entry => hashCombine (hashCombine seed (hashKey entry.1)) (hashValue entry.2)) 0

/-- `std::hash<LinkedMap>` for the given hashes of keys and values. -/
def hash (hashKey : K → UInt64) (hashValue : V → UInt64) (object : Object K V) : UInt64 :=
  hashItems hashKey hashValue object.sortedItems

/-- The loop of `LinkedMap::FindConflictingDuplicate` over two item lists. -/
def conflict [BEq V] : List (K × V) → List (K × V) → Option K
  | [], _ => none
  | _, [] => none
  | (mkey, mvalue) :: me, (tkey, tvalue) :: they =>
    if mkey = tkey then
      if !(mvalue == tvalue) then some mkey else conflict me they
    else if mkey < tkey then conflict me ((tkey, tvalue) :: they)
    else conflict ((mkey, mvalue) :: me) they
termination_by me they => me.length + they.length

def findConflictingDuplicate [BEq V] (object other : Object K V) : Option K :=
  conflict object.sortedItems other.sortedItems

/-- What an object stands for: its own map over its content over the next map. -/
def union : Object K V → List (K × V)
  | mk next content map _ =>
    SortedMap.union map
      (SortedMap.union
        (match content with
          | some part => union part
          | none => [])
        (match next with
          | some part => union part
          | none => []))

/-- The states an object can be in: it owns a map or a content but not both, its map is ordered,
and a remembered item list is the one that would be computed. -/
inductive Consistent : Object K V → Prop where
  | mk {next content map items} (ordered : Ascending map)
      (exclusive : content = none ∨ map = [])
      (behind : ∀ part, next = some part → Consistent part)
      (inside : ∀ part, content = some part → Consistent part)
      (cached : ∀ list, items = some list → list = (Object.mk next content map none).sortedItems) :
      Consistent (.mk next content map items)

/-- One call of `Items` on an object or on a map it refers to, which fills an empty cache. -/
inductive Queried : Object K V → Object K V → Prop where
  | here {next content map} : Queried (mk next content map none)
      (mk next content map (some (mk next content map none).sortedItems))
  | behind {next next' content map items} (query : Queried next next') :
      Queried (mk (some next) content map items) (mk (some next') content map items)
  | inside {next content content' map items} (query : Queried content content') :
      Queried (mk next (some content) map items) (mk next (some content') map items)

end Object

/-- A `LinkedMap` object in a state it can be in. -/
structure LinkedMap (K V : Type) [LinearOrder K] where
  object : Object K V
  consistent : object.Consistent

namespace LinkedMap

variable {K V : Type} [LinearOrder K]

/-- `LinkedMap(Ptr next, Ptr content)`; either pointer may be null. -/
def link (next content : Option (LinkedMap K V)) : LinkedMap K V where
  object := .mk (next.map object) (content.map object) [] none
  consistent := by
    refine .mk List.Pairwise.nil (.inr rfl) ?_ ?_ (by simp)
    · intro part same
      obtain ⟨whole, -, rfl⟩ := Option.map_eq_some_iff.mp same
      exact whole.consistent
    · intro part same
      obtain ⟨whole, -, rfl⟩ := Option.map_eq_some_iff.mp same
      exact whole.consistent

/-- `LinkedMap(Ptr next, underlying_map_t map)`; the pointer may be null. -/
def linkMap (next : Option (LinkedMap K V)) (map : List (K × V)) (ordered : Ascending map) :
    LinkedMap K V where
  object := .mk (next.map object) none map none
  consistent := by
    refine .mk ordered (.inl rfl) ?_ (by simp) (by simp)
    intro part same
    obtain ⟨whole, -, rfl⟩ := Option.map_eq_some_iff.mp same
    exact whole.consistent

/-- `LinkedMap(underlying_map_t map)`. -/
def ofMap (map : List (K × V)) (ordered : Ascending map) : LinkedMap K V := linkMap none map ordered

/-- `LinkedMap(Ptr next, K key, V val)` and `LinkedMap(Ptr next, item_t item)`. -/
def linkItem (next : Option (LinkedMap K V)) (key : K) (value : V) : LinkedMap K V :=
  linkMap next [(key, value)] (List.pairwise_singleton _ _)

/-- `LinkedMap(K key, V val)` and `LinkedMap(item_t item)`. -/
def ofItem (key : K) (value : V) : LinkedMap K V := linkItem none key value

/-- `LinkedMap()`. -/
def default : LinkedMap K V := ofMap [] List.Pairwise.nil

end LinkedMap

end Jst.Expression
