import Jst.Expression.Configuration
import Jst.Utils.Path
/-!
# Functions on values

The functions of `evaluator.cpp` that work on values that have been evaluated already. A thrown
error is `none`.
-/
namespace Jst.Expression.Functions

open Number

def valueIsTrue : Value → Bool
  | .none => false
  | .bool value => value
  | .number value => !value.beq (.ofNat 0)
  | .string value => !value.isEmpty
  | .list items => !items.isEmpty
  | .map fields => !fields.isEmpty
  | .entity _ => true

/-- `Flatten` — the concatenation of a list of lists. -/
def flatten (expr : Value) : Option Value := do
  let lists ← (← expr.asList).mapM Value.asList
  return .list lists.flatten

/-- The number of a value, or an error. -/
def asNumber : Value → Option Double
  | .number value => some value
  | _ => none

def addition (expr : Value) : Option Value := do
  let numbers ← (← expr.asList).mapM asNumber
  return .number (numbers.foldl (· + ·) (.ofNat 0))

def multiplication (expr : Value) : Option Value := do
  let numbers ← (← expr.asList).mapM asNumber
  return .number (numbers.foldl (· * ·) (.ofNat 1))

def all (list : Value) : Option Value := do return .bool ((← list.asList).all valueIsTrue)

def any (list : Value) : Option Value := do return .bool ((← list.asList).any valueIsTrue)

def not (expr : Value) : Option Value := some (.bool !valueIsTrue expr)

def keys (d : Value) : Option Value := do
  return .list ((← d.asMap).map fun item => .string item.1)

def values (d : Value) : Option Value := do return .list ((← d.asMap).map snd)

/-- Store every entry under its key in a map; a later entry replaces an earlier one. -/
def store (entries : List (Str × Value)) : List (Str × Value) :=
  entries.foldl (fun result entry => SortedMap.insert entry.1 entry.2 result) []

/-- `Enumerate` — the entries of a list under their positions, as texts of ten digits. -/
def enumerate (expr : Value) : Option Value := do
  let entries ← expr.asList
  return .map (store (entries.zipIdx.map fun (entry, count) => (padded (decimal count), entry)))

/-- `Set` — a list of strings as the keys of a map. -/
def set (expr : Value) : Option Value := do
  let entries ← (← expr.asList).mapM Value.asString
  return .map (store (entries.map fun entry => (entry, .bool true)))

def reverse (expr : Value) : Option Value := do return .list (← expr.asList).reverse

def length (expr : Value) : Option Value := do
  return .number (.ofNat (← expr.asList).length)

/-- Keep the first of equal values; `seen` are those kept so far. -/
def nub (seen : List Value) : List Value → List Value
  | [] => []
  | l :: list => if seen.any (Value.equal l) then nub seen list else l :: nub (l :: seen) list

/-- `NubRight` — keep the last of equal values. -/
def nubRight (expr : Value) : Option Value := do
  let list ← expr.asList
  if !expr.isCacheable then none
  return .list (nub [] list.reverse).reverse

/-- `NubLeft` — keep the first of equal values. -/
def nubLeft (expr : Value) : Option Value := do
  let list ← expr.asList
  if !expr.isCacheable then none
  return .list (nub [] list)

/-- `std::vector<ExpressionPtr>::max_size` — reserving more throws. -/
def maxSize : Nat := (2 ^ 63 - 1) / 16

/-- The length that `Range` computes, as a `std::size_t`. -/
def rangeLength : Value → Nat
  | .number value => if .ofNat 0 < value then (lround value % 2 ^ 64).toNat else 0
  | .string text => (atol text % 2 ^ 64).toNat
  | _ => 0

/-- `Range` — the texts of the numbers below a length. -/
def range (expr : Value) : Option Value :=
  if maxSize < rangeLength expr then none
  else some (.list ((List.range (rangeLength expr)).map fun i => .string (decimal i)))

def changeEndingTo (name ending : Value) : Option Value := do
  let path ← name.asString
  return .string (Path.append (Path.parentPath path) (Path.stem path) ++ (← ending.asString))

def baseName (name : Value) : Option Value := do return .string (Path.filename (← name.asString))

/-- A single quote. -/
def quote : UInt8 := 39

/-- `ShellQuote` — in single quotes, with every single quote inside replaced. -/
def shellQuote (arg : Str) : Str :=
  quote :: arg.flatMap (fun char => if char = quote then lit "'\\''" else [char]) ++ [quote]

/-- `Join` — the strings of a list with a separator between them; `doQuote` quotes them and
`allowString` lets a string stand for itself. -/
def join (doQuote allowString : Bool) (expr : Value) (sep : Str) : Option Value :=
  let quoted := fun string => if doQuote then shellQuote string else string
  match expr with
  | .string string => if allowString then some (.string (quoted string)) else none
  | .list list => do
    let strings ← list.mapM Value.asString
    return .string (sep.intercalate (strings.map quoted))
  | _ => none

/-- `LinkedMap::FindConflictingDuplicate` finds a key of both maps with different values. -/
def conflicting (left right : List (Str × Value)) : Bool :=
  left.any fun (key, value) =>
    match SortedMap.find key right with
    | some other => !value.equal other
    | none => false

/-- `Union` of a range of maps by halves; the first argument bounds the number of halvings. -/
def unionParts (disjoint : Bool) : Nat → List Value → Option (List (Str × Value))
  | _, [] => some []
  | _, [entry] => entry.asMap
  | 0, _ => none
  | halvings + 1, dicts => do
    let mid := dicts.length / 2
    let left ← unionParts disjoint halvings (dicts.take mid)
    let right ← unionParts disjoint halvings (dicts.drop mid)
    if left.isEmpty then return right
    if right.isEmpty then return left
    if disjoint && conflicting left right then none
    return SortedMap.union right left

/-- `Union` — a later map overrides an earlier one; a disjoint union must not do so with another
value. -/
def union (disjoint : Bool) (expr : Value) : Option Value := do
  let list ← expr.asList
  return .map (← unionParts disjoint list.length list)

/-- `ConcatTargetName` — append to a string, or to the last string of a list. -/
def concatTargetName (expr append : Value) : Option Value :=
  match expr with
  | .string string => do return .string (string ++ (← append.asString))
  | .list list => do
    let strings ← list.mapM Value.asString
    match strings.getLast? with
    | none => return .list []
    | some last =>
      let append ← append.asString
      return .list ((strings.dropLast ++ [last ++ append]).map .string)
  | _ => none

/-- `EscapeCharsExpr` on its evaluated arguments. The characters to escape are only asked for if
there is a character, the prefix only if one is to be escaped. -/
def escapeChars (string chars escapePrefix : Value) : Option Value := do
  let pieces ← (← string.asString).mapM fun char => do
    if (← chars.asString).contains char then return (← escapePrefix.asString) ++ [char]
    else return [char]
  return .string pieces.flatten

/-- The index that a list access is given. -/
def accessIndex : Value → Int
  | .number value => lround value
  | .string text => atol text
  | _ => 0

/-- The item that a list access finds; a negative index counts from the end. -/
def arrayAccess (index : Int) (list : List Value) : Option Value :=
  if 0 ≤ index then list[index.toNat]?
  else if 0 ≤ list.length + index then list[(list.length + index).toNat]?
  else none

/-- Stage the entries of a map to new paths. An entry that meets an entry on its path must be equal
to it and cacheable, or there is a conflict; `replace` tells which of the two then stays. -/
def stage (replace : Bool) (entries : List (Str × Value)) : Option (List (Str × Value)) :=
  entries.foldlM (fun result (path, value) =>
    match SortedMap.find path result with
    | none => some (SortedMap.insert path value result)
    | some staged =>
      if staged.equal value && value.isCacheable then
        some (if replace then SortedMap.insert path value result else result)
      else none) []

/-- The path of `ToSubdirExpr` for a key. -/
def toSubdirPath (flat : Bool) (subdir key : Str) : Str :=
  Path.toNormalPath (Path.append subdir (if flat then Path.filename key else key))

/-- `ToSubdirExpr` on its evaluated arguments. -/
def toSubdir (d : Value) (s : Value) (flat : Bool) : Option Value := do
  let subdir ← s.asString
  let entries ← d.asMap
  let staged ← stage flat (entries.map fun (key, value) => (toSubdirPath flat subdir key, value))
  return .map staged

/-- The path of `FromSubdirExpr` for a key. -/
def fromSubdirPath (subdir key : Str) : Str :=
  Path.toNormalPath (Path.lexicallyRelative key subdir)

/-- `FromSubdirExpr` on its evaluated arguments. -/
def fromSubdir (d : Value) (s : Value) : Option Value := do
  let subdir ← s.asString
  let entries ← d.asMap
  let below := (entries.map fun (key, value) => (fromSubdirPath subdir key, value)).filter
    fun (path, _) => Path.pathIsNonUpwards path
  return .map (← stage false below)

end Jst.Expression.Functions
