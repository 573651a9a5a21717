import Jst.Expression.Value
import Mathlib.Data.List.Sort
/-!
# User-defined rules

A rule declares fields of five kinds, and transitions of the configuration for those that refer to
targets. Names that occur in several lists of fields are found by comparing the sorted lists. What
an expression function is does not matter here, and neither does what a target name is; the order in
which a set of strings is printed is a parameter.
-/
namespace Jst.Target

open SortedMap Expression

/-- `std::sort` of strings. -/
def sortFields (texts : List Str) : List Str := texts.insertionSort (· ≤ ·)

/-- `std::set_intersection` — what stands in both of two sorted lists. -/
def setIntersection : List Str → List Str → List Str
  | [], _ => []
  | _, [] => []
  | left :: lefts, right :: rights =>
    if left < right then setIntersection lefts (right :: rights)
    else if right < left then setIntersection (left :: lefts) rights
    else left :: setIntersection lefts rights
termination_by left right => left.length + right.length

/-- `FindDuplicates` — `triangular` compares everyone with everyone, not only the first one. -/
def findDuplicates : Bool → List Str → List Str → List Str → List (List Str) → List Str
  | triangular, dups, first, second, rest =>
    let dups := (setIntersection first second).foldl (fun dups name => dups.insert name) dups
    match rest with
    | [] => dups
    | third :: rest =>
      let dups := findDuplicates false dups first third rest
      if triangular then findDuplicates true dups second third rest else dups

def getDuplicates (triangular : Bool) (first : List Str) : List (List Str) → List Str
  | [] => []
  | second :: rest => findDuplicates triangular [] first second rest

def joinContainer (sep : Str) (texts : List Str) : Str := (texts.intersperse sep).flatten

/-- An `std::unordered_map`; its entries stand in the order of the iteration. -/
structure UnorderedMap (V : Type) where
  entries : List (Str × V)
  distinct : (entries.map fst).Nodup

namespace UnorderedMap

variable {V : Type}

/-- The keys. -/
def keys (map : UnorderedMap V) : List Str := map.entries.map fst

/-- `std::unordered_map::emplace` — an entry that is there is not overwritten. -/
def emplace (map : UnorderedMap V) (key : Str) (value : V) : UnorderedMap V :=
  if inside : key ∈ map.entries.map fst then map
  else
    { entries := map.entries ++ [(key, value)]
      distinct := by
        rw [map_append]
        exact map.distinct.append (List.nodup_singleton _) (by simpa using inside) }

end UnorderedMap

structure AnonymousDefinition where
  target : Str
  provider : Str
  ruleMap : Value

structure UserRule (Name Function : Type) where
  targetFields : List Str
  stringFields : List Str
  configFields : List Str
  implicitTargets : UnorderedMap (List Name)
  implicitTargetExp : List (Str × Value)
  anonymousDefs : UnorderedMap AnonymousDefinition
  configVars : List Str
  tainted : List Str
  configTransitions : UnorderedMap Function
  expr : Function
  expectedEntries : List Str

/-- `UserRule::kReservedKeywords`. -/
def reservedKeywords : List Str := [lit "arguments_config", lit "tainted", lit "type"]

def computeExpectedEntries (tfields sfields cfields : List Str) : List Str :=
  (tfields ++ sfields ++ cfields ++ reservedKeywords).dedup

/-- Equality of two sets of strings. -/
def sameSet (left right : List Str) : Bool :=
  left.all (fun name => decide (name ∈ right)) && right.all (fun name => decide (name ∈ left))

section Creation

variable {Name Function : Type}
variable (nameExpression : Name → Value) (emptyTransition : Function)
variable (printed : List Str → List Str)

/-- `UserRule::Create` — fields without a declared transition get the empty one. -/
def setTransitions (fields : List Str) (transitions : UnorderedMap Function) :
    UnorderedMap Function :=
  fields.foldl (fun transitions field => transitions.emplace field emptyTransition) transitions

/-- `UserRule::Create`; the error is what is logged. -/
def UserRule.create (targetFields stringFields configFields : List Str)
    (implicitTargets : UnorderedMap (List Name)) (anonymousDefs : UnorderedMap AnonymousDefinition)
    (configVars tainted : List Str) (configTransitions : UnorderedMap Function) (expr : Function) :
    Except Str (UserRule Name Function) :=
  let implicitFields := sortFields implicitTargets.keys
  let anonymousFields := sortFields anonymousDefs.keys
  let targetFields := sortFields targetFields
  let stringFields := sortFields stringFields
  let configFields := sortFields configFields
  let dups := getDuplicates false reservedKeywords
    [targetFields, stringFields, configFields, implicitFields, anonymousFields]
  if !dups.isEmpty then
    .error (lit "User-defined fields cannot be any of the reserved fields [" ++
      joinContainer (lit ",") reservedKeywords ++ lit "]")
  else
    let dups := getDuplicates true targetFields
      [stringFields, configFields, implicitFields, anonymousFields]
    if !dups.isEmpty then
      .error (lit "A field can have only one type, but the following have more: [" ++
        joinContainer (lit ",") (printed dups) ++ lit "]")
    else
      let transitionTargets := sortFields configTransitions.keys
      let dups := getDuplicates false transitionTargets
        [targetFields, implicitFields, anonymousFields]
      if !sameSet dups transitionTargets then
        .error (lit "Config transitions has to be a map from target fields to transition " ++
          lit "expressions, but found [" ++ joinContainer (lit ",") transitionTargets ++ lit "]")
      else
        let configTransitions := setTransitions emptyTransition targetFields configTransitions
        let configTransitions := setTransitions emptyTransition implicitFields configTransitions
        let configTransitions := setTransitions emptyTransition anonymousFields configTransitions
        .ok
          { targetFields := targetFields
            stringFields := stringFields
            configFields := configFields
            implicitTargets := implicitTargets
            implicitTargetExp := implicitTargets.entries.map fun entry =>
              (entry.1, .list (entry.2.map nameExpression))
            anonymousDefs := anonymousDefs
            configVars := configVars
            tainted := (sortFields tainted).dedup
            configTransitions := configTransitions
            expr := expr
            expectedEntries := computeExpectedEntries targetFields stringFields configFields }

end Creation

end Jst.Target
