import Jst.Lang.Parameters
/-!
# Fully inlined syntax trees

What is left once functions, calls of functions and the built-in functions of a program have been
inlined. Literals stay; a built-in function that cannot compute its result leaves a call of a
function of the expression language.
-/
namespace Jst.Lang

/-- The call that a built-in function leaves for the evaluation. -/
structure Fallback where
  builtin : String
  form : String
  required : List String
  optional : List String
  type : ValueType
deriving DecidableEq

/-- The `VerbatimNode`s at the end of the built-in functions. -/
def fallbacks : List Fallback := [
  ⟨"get", "lookup", ["key", "map"], ["default"], .any⟩,
  ⟨"join", "join", ["$1"], ["separator"], .string⟩,
  ⟨"flatten", "++", ["$1"], [], .list⟩,
  ⟨"union", "map_union", ["$1"], [], .map⟩,
  ⟨"union", "disjoint_map_union", ["$1"], [], .map⟩,
  ⟨"keys", "keys", ["$1"], [], .list⟩,
  ⟨"fail", "fail", ["msg"], [], .any⟩,
  ⟨"json_encode", "json_encode", ["$1"], [], .string⟩,
  ⟨"at", "[]", ["index", "list"], ["default"], .any⟩,
  ⟨"all", "and", ["$1"], [], .bool⟩,
  ⟨"any", "or", ["$1"], [], .bool⟩,
  ⟨"sum", "+", ["$1"], [], .number⟩,
  ⟨"prod", "*", ["$1"], [], .number⟩,
  ⟨"eq", "==", ["$1", "$2"], [], .bool⟩,
  ⟨"not", "not", ["$1"], [], .bool⟩,
  -- the value is a map
  ⟨"zip_map", "zip_map", ["range_key", "range_val"], [], .list⟩,
  ⟨"nub_right", "nub_right", ["$1"], [], .list⟩,
  ⟨"nub_left", "nub_left", ["$1"], [], .list⟩,
  ⟨"range", "range", ["$1"], [], .list⟩,
  ⟨"reverse", "reverse", ["$1"], [], .list⟩,
  ⟨"length", "length", ["$1"], [], .number⟩,
  ⟨"basename", "basename", ["$1"], [], .string⟩,
  ⟨"join_cmd", "join_cmd", ["$1"], [], .string⟩,
  ⟨"change_ending", "change_ending", ["$1"], ["ending"], .string⟩,
  ⟨"escape_chars", "escape_chars", ["$1"], ["chars", "escape_prefix"], .string⟩,
  ⟨"enumerate", "enumerate", ["$1"], [], .map⟩,
  ⟨"to_subdir", "to_subdir", ["$1"], ["subdir", "flat", "msg"], .map⟩,
  ⟨"from_subdir", "from_subdir", ["$1"], ["subdir"], .map⟩]

/-- The arguments have the keys that a call of a fallback has. -/
def Fallback.Accepts (fallback : Fallback) (args : List (String × Node)) : Prop :=
  ∃ given, given.Sublist fallback.optional ∧ args.map fst = fallback.required ++ given

theorem Fallback.Accepts.distinct {fallback : Fallback} {args : List (String × Node)}
    (accepted : fallback.Accepts args) (listed : fallback ∈ fallbacks) :
    ("type" :: args.map fst).Nodup := by
  obtain ⟨given, sublist, keys⟩ := accepted
  have table : ∀ fallback ∈ fallbacks,
      ("type" :: (fallback.required ++ fallback.optional)).Nodup := by decide
  rw [keys]
  exact (table fallback listed).sublist
    (((List.Sublist.refl fallback.required).append sublist).cons_cons "type")

/-- The nodes that full inlining may return. -/
inductive Inlined : Node → Prop where
  | func (params : List (Str × Option Node)) (body : Node) : Inlined (.func params body)
  | builtin (name : Str) : Inlined (.builtin name)
  | bool (value : Bool) : Inlined (.bool value)
  | string (value : Str) : Inlined (.string value)
  | number (value : Number.Double) : Inlined (.number value)
  | null : Inlined .null
  | ref (data : RefData) : Inlined (.ref data)
  | list {items : List Node} (each : ∀ item ∈ items, Inlined item) : Inlined (.list items)
  | map {fields : List (Node × Node)} (keys : ∀ field ∈ fields, Inlined field.1)
      (values : ∀ field ∈ fields, Inlined field.2) : Inlined (.map fields)
  | var (name : Str) {default : Option Node} (origin : VarOrigin)
      (given : ∀ node ∈ default, Inlined node) : Inlined (.var name default origin)
  | ite {cond : Node} {thenBranch elseBranch : Option Node} (asked : Inlined cond)
      (whenTrue : ∀ node ∈ thenBranch, Inlined node)
      (whenFalse : ∀ node ∈ elseBranch, Inlined node) : Inlined (.ite cond thenBranch elseBranch)
  | forEach (iterVar : Str) {range body : Node} (ranged : Inlined range) (inside : Inlined body) :
      Inlined (.forEach iterVar range body)
  | zipWith (var1 var2 : Str) {range1 range2 body : Node} (over1 : Inlined range1)
      (over2 : Inlined range2) (inside : Inlined body) :
      Inlined (.zipWith var1 var2 range1 range2 body)
  | foldLeft (iterVar accuVar : Str) {init range body : Node} (start : Inlined init)
      (ranged : Inlined range) (inside : Inlined body) :
      Inlined (.foldLeft iterVar accuVar init range body)
  | call {fallback : Fallback} (listed : fallback ∈ fallbacks) {args : List (String × Node)}
      (accepted : fallback.Accepts args) (given : ∀ arg ∈ args, Inlined arg.2) :
      Inlined (runtimeCall fallback.form args fallback.type)

end Jst.Lang
