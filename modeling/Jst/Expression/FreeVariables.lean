import Jst.Expression.Evaluator
/-!
# Variables an expression reads

Which parts of an expression a form evaluates, and under which additional bindings, is a relation
`Occurs`: most parts are fields that are evaluated in the environment of the expression itself, the
bodies of the binders are evaluated with variables bound. `Reads` follows the parts down to the
variables and leaves out what a binder on the way binds.
-/
namespace Jst.Expression

open SortedMap Evaluator

/-- The fields that a form evaluates in its own environment. The `msg` of a failure is not among
them, since it has no influence on the result. -/
def plainFields : List (String × List String) := [
  ("var", ["default"]), ("if", ["cond", "then", "else"]), ("cond", ["default"]),
  ("case", ["expr", "default"]), ("case*", ["expr", "default"]), ("assert", ["$1"]),
  ("assert_non_empty", ["$1"]), ("context", ["$1"]), ("==", ["$1", "$2"]), ("and", ["$1"]),
  ("or", ["$1"]), ("not", ["$1"]), ("++", ["$1"]), ("+", ["$1"]), ("*", ["$1"]),
  ("nub_right", ["$1"]), ("nub_left", ["$1"]), ("range", ["$1"]),
  ("change_ending", ["$1", "ending"]), ("basename", ["$1"]), ("join", ["$1", "separator"]),
  ("join_cmd", ["$1"]), ("json_encode", ["$1"]),
  ("escape_chars", ["$1", "chars", "escape_prefix"]), ("keys", ["$1"]), ("enumerate", ["$1"]),
  ("set", ["$1"]), ("reverse", ["$1"]), ("length", ["$1"]), ("values", ["$1"]),
  ("lookup", ["key", "map", "default"]), ("[]", ["index", "list", "default"]),
  ("singleton_map", ["key", "value"]), ("disjoint_map_union", ["$1"]), ("map_union", ["$1"]),
  ("to_subdir", ["$1", "subdir", "flat"]), ("from_subdir", ["$1", "subdir"]),
  ("foreach", ["range"]), ("foreach_map", ["range"]), ("zip_with", ["range_1", "range_2"]),
  ("zip_map", ["range_key", "range_val"]), ("foldl", ["range", "start"]),
  ("concat_target_name", ["$1", "$2"])]

/-- The form evaluates the field in its own environment. -/
def isPlain (form key : String) : Bool :=
  plainFields.any fun (name, keys) => name = form && keys.contains key

/-- The lists of pairs of a form whose entries it evaluates. -/
def pairFields : List (String × String) := [("cond", "cond"), ("case*", "case")]

/-- A term that quasi-quoting evaluates: the argument of a `,` or of a `,@` inside a list. -/
inductive Unquoted : Value → Value → Prop where
  | argument {fields : Fields} {arg : Value} (unquotes : token fields = some (lit ",") ∨
      token fields = some (lit ",@")) (found : find (lit "$1") fields = some arg) :
      Unquoted (.map fields) arg
  | item {items : List Value} {item arg : Value} (member : item ∈ items)
      (inside : Unquoted item arg) : Unquoted (.list items) arg
  | field {fields : Fields} {key : Str} {value arg : Value}
      (keeps : token fields ≠ some (lit ",") ∧ token fields ≠ some (lit ",@"))
      (member : (key, value) ∈ fields) (inside : Unquoted value arg) : Unquoted (.map fields) arg

/-- The variable that a binding of `let*` binds. -/
def bindingName : Value → Option Str
  | .list [.string name, _] => some name
  | _ => none

/-- A form evaluates a part of its expression with the listed variables bound. -/
inductive Occurs : String → Fields → Value → List Str → Prop where
  | field {form key : String} {expr : Fields} {part : Value} (plain : isPlain form key = true)
      (found : find (lit key) expr = some part) : Occurs form expr part []
  | condition {form : String} {expr : Fields} {part : Value} {conds : List Value}
      (junctor : form = "and" ∨ form = "or") (found : find (lit "$1") expr = some (.list conds))
      (member : part ∈ conds) : Occurs form expr part []
  | pair {form key : String} {expr : Fields} {pairs : List Value} {left right part : Value}
      (listed : (form, key) ∈ pairFields) (found : find (lit key) expr = some (.list pairs))
      (member : .list [left, right] ∈ pairs) (entry : part = left ∨ part = right) :
      Occurs form expr part []
  | case {expr cases : Fields} {key : Str} {part : Value}
      (found : find (lit "case") expr = some (.map cases)) (member : find key cases = some part) :
      Occurs "case" expr part []
  | unquoted {expr : Fields} {quoted part : Value} (found : find (lit "$1") expr = some quoted)
      (inside : Unquoted quoted part) : Occurs "`" expr part []
  | foreach {expr : Fields} {var : Str}
      (bound : Value.get expr "var" (.string (lit "_")) = .string var) :
      Occurs "foreach" expr (Value.get expr "body" (.list [])) [var]
  | foreachMap {expr : Fields} {var varVal : Str}
      (bound : Value.get expr "var_key" (.string (lit "_")) = .string var)
      (boundVal : Value.get expr "var_val" (.string (lit "$_")) = .string varVal) :
      Occurs "foreach_map" expr (Value.get expr "body" (.list [])) [varVal, var]
  | zipWith {expr : Fields} {var1 var2 : Str}
      (bound1 : Value.get expr "var_1" (.string (lit "$1")) = .string var1)
      (bound2 : Value.get expr "var_2" (.string (lit "$2")) = .string var2) :
      Occurs "zip_with" expr (Value.get expr "body" (.list [])) [var2, var1]
  | foldLeft {expr : Fields} {var accumVar : Str}
      (bound : Value.get expr "var" (.string (lit "_")) = .string var)
      (boundAccum : Value.get expr "accum_var" (.string (lit "$1")) = .string accumVar) :
      Occurs "foldl" expr (Value.get expr "body" (.list [])) [var, accumVar]
  | binding {expr : Fields} {before after : List Value} {name : Str} {part : Value}
      (found : find (lit "bindings") expr =
        some (.list (before ++ .list [.string name, part] :: after))) :
      Occurs "let*" expr part (before.filterMap bindingName)
  | letBody {expr : Fields} {bindings : List Value}
      (found : Value.get expr "bindings" (.list []) = .list bindings) :
      Occurs "let*" expr (Value.get expr "body" (.map [])) (bindings.filterMap bindingName)
  | predicate {expr : Fields} {var : Str} {part : Value}
      (bound : Value.get expr "var" (.string (lit "_")) = .string var)
      (found : find (lit "predicate") expr = some part) : Occurs "assert" expr part [var]

/-- A form names a variable of its environment itself. -/
inductive Mentions : String → Fields → Str → Prop where
  /-- The variable of a `var` expression. -/
  | var {expr : Fields} {name : Str} (named : find (lit "name") expr = some (.string name)) :
      Mentions "var" expr name
  /-- A variable of an `env` list. -/
  | env {expr : Fields} {vars : List Value} {name : Str}
      (listed : find (lit "vars") expr = some (.list vars)) (member : .string name ∈ vars) :
      Mentions "env" expr name

/-- Evaluating the expression may read the variable: it does so itself, or a part of it does and no
binder in between binds the variable. -/
inductive Reads (library : Library) :
    Option (List (Str × ExpressionFunction)) → Value → Str → Prop where
  | item {imports : Option (List (Str × ExpressionFunction))} {items : List Value} {part : Value}
      {name : Str} (member : part ∈ items) (reads : Reads library imports part name) :
      Reads library imports (.list items) name
  | mention {imports : Option (List (Str × ExpressionFunction))} {form : String} {expr : Fields}
      {name : Str} (type : token expr = some (lit form)) (mentions : Mentions form expr name) :
      Reads library imports (.map expr) name
  | part {imports : Option (List (Str × ExpressionFunction))} {form : String} {expr : Fields}
      {part : Value} {bound : List Str} {name : Str} (type : token expr = some (lit form))
      (occurs : Occurs form expr part bound) (free : name ∉ bound)
      (reads : Reads library imports part name) : Reads library imports (.map expr) name
  | provided {imports : Option (List (Str × ExpressionFunction))} {type : Str} {expr : Fields}
      {function : ProviderFunction} {part : Value} {name : Str} (typed : token expr = some type)
      (found : library.provider type = some function) (asks : (function.call expr).Asks part)
      (reads : Reads library imports part name) : Reads library imports (.map expr) name
  | called {table inner : List (Str × ExpressionFunction)} {expr : Fields} {import' : Str}
      {vars : List Str} {body : Value} {name : Str}
      (type : token expr = some (lit "CALL_EXPRESSION"))
      (named : find (lit "name") expr = some (.string import'))
      (found : find import' table = some (.mk vars inner body)) (declared : name ∈ vars)
      (reads : Reads library (some inner) body name) : Reads library (some table) (.map expr) name

end Jst.Expression
