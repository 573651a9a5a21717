import Jst.Data.SortedMap
import Jst.Utils.Number
/-!
# Expressions

`Expression` is the type of the values of the expression language and of its terms alike. Lists and
maps nest; a map is its list of items in key order, which is all that a linked map shows of itself.
Names, artifacts, results and nodes are passed around as a whole: all that an expression ever sees
of them is their kind, the text of their JSON and whether they may be cached.
-/
namespace Jst.Expression

open SortedMap Number

/-- The values that come from targets. The first field is the text of the value's JSON. -/
inductive Entity where
  | name (json : Str)
  | artifact (json : Str)
  | result (json : Str) (isCacheable : Bool)
  | node (json : Str) (isCacheable : Bool)
deriving DecidableEq

/-- An expression. -/
inductive Value where
  | none
  | bool (value : Bool)
  | number (value : Double)
  | string (value : Str)
  | entity (value : Entity)
  | list (items : List Value)
  | map (fields : List (Str × Value))

namespace Value

mutual
/-- Structural comparison of two values. -/
def same : Value → Value → Bool
  | none, none => true
  | bool left, bool right => decide (left = right)
  | number left, number right => decide (left = right)
  | string left, string right => decide (left = right)
  | entity left, entity right => decide (left = right)
  | list left, list right => sameItems left right
  | map left, map right => sameFields left right
  | _, _ => false

/-- Structural comparison of the items of two lists. -/
def sameItems : List Value → List Value → Bool
  | [], [] => true
  | left :: lefts, right :: rights => same left right && sameItems lefts rights
  | _, _ => false

/-- Structural comparison of the fields of two maps. -/
def sameFields : List (Str × Value) → List (Str × Value) → Bool
  | [], [] => true
  | (key, left) :: lefts, (other, right) :: rights =>
    decide (key = other) && same left right && sameFields lefts rights
  | _, _ => false
end

mutual
theorem same_iff : ∀ left right : Value, same left right = true ↔ left = right
  | none, right => by cases right <;> simp [same]
  | bool left, right => by cases right <;> simp [same]
  | number left, right => by cases right <;> simp [same]
  | string left, right => by cases right <;> simp [same]
  | entity left, right => by cases right <;> simp [same]
  | list left, right => by cases right <;> simp [same, sameItems_iff left]
  | map left, right => by cases right <;> simp [same, sameFields_iff left]

theorem sameItems_iff : ∀ left right : List Value, sameItems left right = true ↔ left = right
  | [], right => by cases right <;> simp [sameItems]
  | left :: lefts, [] => by simp [sameItems]
  | left :: lefts, right :: rights => by
    simp [sameItems, same_iff left right, sameItems_iff lefts rights]

theorem sameFields_iff :
    ∀ left right : List (Str × Value), sameFields left right = true ↔ left = right
  | [], right => by cases right <;> simp [sameFields]
  | (key, left) :: lefts, [] => by simp [sameFields]
  | (key, left) :: lefts, (other, right) :: rights => by
    simp [sameFields, same_iff left right, sameFields_iff lefts rights, and_assoc]
end

instance : DecidableEq Value := fun left right => decidable_of_iff _ (same_iff left right)

/-- `Expression::String` — throws on any other type. -/
def asString : Value → Option Str
  | string value => some value
  | _ => Option.none

/-- `Expression::List` — throws on any other type. -/
def asList : Value → Option (List Value)
  | list items => some items
  | _ => Option.none

/-- `Expression::Map` — throws on any other type. -/
def asMap : Value → Option (List (Str × Value))
  | map fields => some fields
  | _ => Option.none

def isString : Value → Bool
  | string _ => true
  | _ => false

/-- `Expression::Get` — a field of a map, or else a default. -/
def get (fields : List (Str × Value)) (key : String) (default : Value) : Value :=
  (find (lit key) fields).getD default

mutual
/-- `Expression::IsCacheable` — no name and no uncacheable result or node inside. -/
def isCacheable : Value → Bool
  | entity (.name _) => false
  | entity (.result _ cacheable) | entity (.node _ cacheable) => cacheable
  | list items => isCacheableList items
  | map fields => isCacheableMap fields
  | _ => true

/-- `Expression::IsCacheable` on the items of a list. -/
def isCacheableList : List Value → Bool
  | [] => true
  | item :: rest => isCacheable item && isCacheableList rest

/-- `Expression::IsCacheable` on the entries of a map. -/
def isCacheableMap : List (Str × Value) → Bool
  | [] => true
  | (_, value) :: rest => isCacheable value && isCacheableMap rest
end

mutual
/-- `Expression::ToHash` — what the hash of a value tells apart. Numbers are hashed by the text of
their JSON, which is that of null for infinities and NaN; values from targets by kind and JSON. -/
def toHash : Value → Value
  | number value => if value.isFinite then number value else none
  | entity (.result json _) => entity (.result json true)
  | entity (.node json _) => entity (.node json true)
  | list items => list (toHashList items)
  | map fields => map (toHashMap fields)
  | value => value

/-- `Expression::ToHash` on the items of a list. -/
def toHashList : List Value → List Value
  | [] => []
  | item :: rest => toHash item :: toHashList rest

/-- `Expression::ToHash` on the entries of a map. -/
def toHashMap : List (Str × Value) → List (Str × Value)
  | [] => []
  | (key, value) :: rest => (key, toHash value) :: toHashMap rest
end

/-- `Expression::operator==` — two values are equal if their hashes are. -/
def equal (left right : Value) : Bool := decide (left.toHash = right.toHash)

mutual
/-- How deeply lists and maps are nested in a value. -/
def depth : Value → Nat
  | list items => depthList items + 1
  | map fields => depthFields fields + 1
  | _ => 0

/-- The greatest depth of the items of a list. -/
def depthList : List Value → Nat
  | [] => 0
  | item :: rest => max (depth item) (depthList rest)

/-- The greatest depth of the entries of a map. -/
def depthFields : List (Str × Value) → Nat
  | [] => 0
  | (_, value) :: rest => max (depth value) (depthFields rest)
end

theorem depth_le_of_mem {item : Value} {items : List Value} (member : item ∈ items) :
    item.depth ≤ depthList items := by
  induction items with
  | nil => cases member
  | cons first rest step =>
    rw [depthList]
    cases mem_cons.mp member with
    | inl head => exact head ▸ Nat.le_max_left _ _
    | inr tail => exact (step tail).trans (Nat.le_max_right _ _)

theorem depth_le_of_field {key : Str} {value : Value} {fields : List (Str × Value)}
    (member : (key, value) ∈ fields) : value.depth ≤ depthFields fields := by
  induction fields with
  | nil => cases member
  | cons first rest step =>
    obtain ⟨name, stored⟩ := first
    rw [depthFields]
    cases mem_cons.mp member with
    | inl head => cases head; exact Nat.le_max_left _ _
    | inr tail => exact (step tail).trans (Nat.le_max_right _ _)

end Value

end Jst.Expression
