import Jst.Expression.Value
import Jst.Lang.Ast
/-!
# Serialisation of syntax trees

`ASTToJsonVisitor` writes a tree as the JSON of an expression. By default literal maps become
expressions that build them; verbatim nodes are written as they stand. A JSON value is the
expression value that it is read as; a thrown error is `none`.
-/
namespace Jst.Lang

open Jst.Expression

/-- A JSON object with a type and further fields, in the order in which they are set. -/
def object (type : String) (fields : List (String × Value)) : Value :=
  .map (fields.foldl (fun root (key, value) => SortedMap.insert (lit key) value root)
    [(lit "type", .string (lit type))])

/-- `kEmptyMap`. -/
def emptyMapJson : Value := object "empty_map" []

/-- The JSON of a `RefNode`. -/
def RefData.toJson (data : RefData) : Value :=
  let target := data.target.getD []
  match data.type with
  | .local => .string target
  | .ext => .list [.string (lit "@"), .string (data.repo.getD []), .string data.module,
      .string target]
  | .rel => .list [.string (lit "./"), .string data.module, .string target]
  | .abs => .list [.string data.module, .string target]

/-- The mode in which a node inside another one is written. -/
def VerbatimType.inner (mode next : VerbatimType) : VerbatimType :=
  if mode = .full then .full else next

namespace Node

mutual
/-- `ASTToJsonVisitor::ToJson` — write a node in the mode `mode`. With `jsonOnly`, nodes that are
not literals are not allowed. -/
def toJson (jsonOnly : Bool) (mode : VerbatimType) : Node → Option Value
  | verbatim expr type _ => if jsonOnly then none else toJson jsonOnly (mode.inner type) expr
  | list items => do return .list (← toJsonItems jsonOnly (mode.inner .none) items)
  | map fields =>
    if jsonOnly = false ∧ mode = .none then do
      let singletons ← toJsonSingletons fields
      return match fields, singletons with
        | [], _ | [_], [] => emptyMapJson
        | [_], singleton :: _ => singleton
        | _, singletons => object "map_union" [("$1", .list singletons)]
    else if fields.all fun field => field.1.isString then do
      return .map (← toJsonFields jsonOnly (mode.inner .none) fields [])
    else toJsonBefore jsonOnly (mode.inner .none) fields
  | bool value => some (.bool value)
  | string value => some (.string value)
  | number value => some (.number value)
  | null => some .none
  | var name default _ =>
    if jsonOnly then none
    else do
      let fields ← match default with
        | some default => do
          pure [("default", ← toJson jsonOnly (mode.inner .none) default)]
        | none => pure []
      return object "var" (("name", .string name) :: fields)
  | ite cond thenBranch elseBranch =>
    if jsonOnly then none
    else do
      let cond ← toJson jsonOnly (mode.inner .none) cond
      let thenFields ← match thenBranch with
        | some node => do pure [("then", ← toJson jsonOnly (mode.inner .none) node)]
        | none => pure []
      let elseFields ← match elseBranch with
        | some node => do pure [("else", ← toJson jsonOnly (mode.inner .none) node)]
        | none => pure []
      return object "if" (("cond", cond) :: thenFields ++ elseFields)
  | forEach iterVar range body =>
    if jsonOnly then none
    else do
      let range ← toJson jsonOnly (mode.inner .none) range
      let body ← toJson jsonOnly (mode.inner .none) body
      return object "foreach" [("var", .string iterVar), ("range", range), ("body", body)]
  | zipWith var1 var2 range1 range2 body =>
    if jsonOnly then none
    else do
      let range1 ← toJson jsonOnly (mode.inner .none) range1
      let range2 ← toJson jsonOnly (mode.inner .none) range2
      let body ← toJson jsonOnly (mode.inner .none) body
      return object "zip_with" [("var_1", .string var1), ("var_2", .string var2),
        ("range_1", range1), ("range_2", range2), ("body", body)]
  | foldLeft iterVar accuVar init range body =>
    if jsonOnly then none
    else do
      let init ← toJson jsonOnly (mode.inner .none) init
      let range ← toJson jsonOnly (mode.inner .none) range
      let body ← toJson jsonOnly (mode.inner .none) body
      return object "foldl" [("var", .string iterVar), ("accum_var", .string accuVar),
        ("start", init), ("range", range), ("body", body)]
  | ref data => some data.toJson
  | _ => none

/-- The items of a list, written one by one. -/
def toJsonItems (jsonOnly : Bool) (mode : VerbatimType) : List Node → Option (List Value)
  | [] => some []
  | item :: items => do
    let json ← toJson jsonOnly mode item
    return json :: (← toJsonItems jsonOnly mode items)

/-- `CreateSingletonMap` for every field of a map that is not a function. -/
def toJsonSingletons : List (Node × Node) → Option (List Value)
  | [] => some []
  | (key, value) :: fields =>
    if value.isFunc then toJsonSingletons fields
    else do
      let key ← toJson false .none key
      let value ← toJson false .none value
      return object "singleton_map" [("key", key), ("value", value)] :: (← toJsonSingletons fields)

/-- The fields of a literal map with string keys, set in `root`; functions are skipped. -/
def toJsonFields (jsonOnly : Bool) (mode : VerbatimType) :
    List (Node × Node) → List (Str × Value) → Option (List (Str × Value))
  | [], root => some root
  | (key, value) :: fields, root =>
    match key with
    | string name =>
      if value.isFunc then toJsonFields jsonOnly mode fields root
      else do
        let json ← toJson jsonOnly mode value
        toJsonFields jsonOnly mode fields (SortedMap.insert name json root)
    | _ => some root

/-- A literal map with a computed key is written as null, unless a value before that key throws. -/
def toJsonBefore (jsonOnly : Bool) (mode : VerbatimType) : List (Node × Node) → Option Value
  | [] => some .none
  | (key, value) :: fields =>
    match key with
    | string _ =>
      if value.isFunc then toJsonBefore jsonOnly mode fields
      else do
        let _ ← toJson jsonOnly mode value
        toJsonBefore jsonOnly mode fields
    | _ => some .none
end

end Node

end Jst.Lang
