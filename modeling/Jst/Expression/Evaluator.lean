import Jst.Expression.Functions
/-!
# The evaluator

The special forms of the expression language and `Evaluator::Evaluate`, which looks the form of a
map up under its `type`. Forms evaluate parts of their expression through a callback, as in the
source. A thrown error is `none`; the texts of errors, and the evaluation of the `msg` that only
goes into such a text, are left out.
-/
namespace Jst.Expression

open SortedMap Functions

/-- The fields of an expression that is a map. -/
abbrev Fields := List (Str × Value)

abbrev SubExprEvaluator := Value → Configuration → Option Value

/-- A function of a `FunctionMap`. -/
abbrev Function := SubExprEvaluator → Fields → Configuration → Option Value

/-- `Expression::kEmptyMapExpr`. -/
def emptyMapExpr : Value := .map [(lit "type", .string (lit "empty_map"))]

namespace Evaluator

/-- `EvalArgument` — evaluate a field that has to be there. -/
def evalArgument (expr : Fields) (argument : String) (eval : SubExprEvaluator)
    (env : Configuration) : Option Value := do eval (← find (lit argument) expr) env

/-- `eval(expr->Get(key, default), env)`. -/
def evalGet (expr : Fields) (key : String) (default : Value) (eval : SubExprEvaluator)
    (env : Configuration) : Option Value := eval (Value.get expr key default) env

def unaryExpr (f : Value → Option Value) : Function := fun eval expr env => do
  f (← evalArgument expr "$1" eval env)

/-- `LogicalAnd` on the list of conditions. -/
def logicalAnd (eval : SubExprEvaluator) (env : Configuration) : List Value → Option Value
  | [] => some (.bool true)
  | c :: list => do
    if valueIsTrue (← eval c env) then logicalAnd eval env list else some (.bool false)

/-- `LogicalOr` on the list of conditions. -/
def logicalOr (eval : SubExprEvaluator) (env : Configuration) : List Value → Option Value
  | [] => some (.bool false)
  | c :: list => do
    if valueIsTrue (← eval c env) then some (.bool true) else logicalOr eval env list

/-- `AndExpr` — a literal list of conditions is evaluated from left to right. -/
def andExpr : Function := fun eval expr env =>
  match find (lit "$1") expr with
  | none => some (.bool true)
  | some (.list conds) => logicalAnd eval env conds
  | some _ => unaryExpr all eval expr env

/-- `OrExpr` — a literal list of conditions is evaluated from left to right. -/
def orExpr : Function := fun eval expr env =>
  match find (lit "$1") expr with
  | none => some (.bool false)
  | some (.list conds) => logicalOr eval env conds
  | some _ => unaryExpr any eval expr env

def varExpr : Function := fun eval expr env => do
  let name ← (← find (lit "name") expr).asString
  let result := env.get name
  if result = .none then evalGet expr "default" .none eval env else some result

def onlyInQuasiQuote : Function := fun _ _ _ => none

/-- The `type` of a map, if it is a string. -/
def token (fields : Fields) : Option Str := (find (lit "type") fields).bind Value.asString

mutual
def expandQuasiQuoteListEntry (eval : SubExprEvaluator) (env : Configuration) :
    Value → Option Value
  | .list entries => do return .list [.list (← expandQuasiQuoteList eval env entries)]
  | .map fields =>
    if token fields = some (lit ",") then
      match find (lit "$1") fields with
      | none => some .none
      | some arg => do return .list [← eval arg env]
    else if token fields = some (lit ",@") then
      match find (lit "$1") fields with
      | none => some (.list [])
      | some arg => do return .list (← (← eval arg env).asList)
    else do return .map (← expandQuasiQuoteMap eval env fields)
  | expr => some (.list [expr])

/-- The entries that the entries of a quasi-quoted list expand to. -/
def expandQuasiQuoteList (eval : SubExprEvaluator) (env : Configuration) :
    List Value → Option (List Value)
  | [] => some []
  | entry :: entries => do
    let expanded ← (← expandQuasiQuoteListEntry eval env entry).asList
    return expanded ++ (← expandQuasiQuoteList eval env entries)

def expandQuasiQuote (eval : SubExprEvaluator) (env : Configuration) : Value → Option Value
  | .list entries => do return .list (← expandQuasiQuoteList eval env entries)
  | .map fields =>
    if token fields = some (lit ",") then
      match find (lit "$1") fields with
      | none => some .none
      | some arg => eval arg env
    else if token fields = some (lit ",@") then none
    else do return .map (← expandQuasiQuoteMap eval env fields)
  | expr => some expr

/-- The items of a quasi-quoted map, each with its value expanded. -/
def expandQuasiQuoteMap (eval : SubExprEvaluator) (env : Configuration) :
    List (Str × Value) → Option (List (Str × Value))
  | [] => some []
  | (key, value) :: fields => do
    let expanded ← expandQuasiQuote eval env value
    return (key, expanded) :: (← expandQuasiQuoteMap eval env fields)
end

def quasiQuoteExpr : Function := fun eval expr env =>
  match find (lit "$1") expr with
  | some toExpand => expandQuasiQuote eval env toExpand
  | none => some .none

def quoteExpr : Function := fun _ expr _ => some (Value.get expr "$1" .none)

def ifExpr : Function := fun eval expr env => do
  if valueIsTrue (← evalArgument expr "cond" eval env) then
    evalGet expr "then" (.list []) eval env
  else evalGet expr "else" (.list []) eval env

/-- The value of the first pair whose first entry evaluates to something that is chosen. -/
def firstPair (eval : SubExprEvaluator) (env : Configuration) (chosen : Value → Bool)
    (default : Option Value) : List Value → Option Value
  | [] => default
  | .list [key, value] :: pairs => do
    if chosen (← eval key env) then eval value env else firstPair eval env chosen default pairs
  | _ => none

def condExpr : Function := fun eval expr env => do
  let default := evalGet expr "default" (.list []) eval env
  match find (lit "cond") expr with
  | none => default
  | some cond => firstPair eval env valueIsTrue default (← cond.asList)

def caseExpr : Function := fun eval expr env => do
  let default := evalGet expr "default" (.list []) eval env
  match find (lit "case") expr with
  | none => default
  | some cases =>
    let cases ← cases.asMap
    let key ← (← evalArgument expr "expr" eval env).asString
    match find key cases with
    | some value => eval value env
    | none => default

def seqCaseExpr : Function := fun eval expr env => do
  let default := evalGet expr "default" (.list []) eval env
  match find (lit "case") expr with
  | none => default
  | some cases =>
    let cases ← cases.asList
    let cmp ← evalArgument expr "expr" eval env
    if !cmp.isCacheable then none
    firstPair eval env cmp.equal default cases

def equalExpr : Function := fun eval expr env => do
  let a ← evalArgument expr "$1" eval env
  if !a.isCacheable then none
  let b ← evalArgument expr "$2" eval env
  if !b.isCacheable then none
  return .bool (a.equal b)

def changeEndingExpr : Function := fun eval expr env => do
  let name ← evalGet expr "$1" (.string []) eval env
  let ending ← evalGet expr "ending" (.string []) eval env
  changeEndingTo name ending

def joinExpr : Function := fun eval expr env => do
  let list ← evalGet expr "$1" (.list []) eval env
  let separator ← evalGet expr "separator" (.string []) eval env
  join false false list (← separator.asString)

def joinCmdExpr : Function := fun eval expr env => do
  join true false (← evalGet expr "$1" (.list []) eval env) (lit " ")

/-- `JsonEncodeExpr`; `dump` is the text of a value's JSON, with null for what has no JSON. -/
def jsonEncodeExpr (dump : Value → Option Str) : Function := fun eval expr env => do
  return .string (← dump (← evalGet expr "$1" (.list []) eval env))

def escapeCharsExpr : Function := fun eval expr env => do
  let string ← evalGet expr "$1" (.string []) eval env
  let chars ← evalGet expr "chars" (.string []) eval env
  let escapePrefix ← evalGet expr "escape_prefix" (.string (lit "\\")) eval env
  escapeChars string chars escapePrefix

def lookupExpr : Function := fun eval expr env => do
  let k ← (← evalArgument expr "key" eval env).asString
  let d ← (← evalArgument expr "map" eval env).asMap
  let found := (find k d).getD .none
  if found = .none then evalGet expr "default" .none eval env else some found

def arrayAccessExpr : Function := fun eval expr env => do
  let k ← evalArgument expr "index" eval env
  let d ← (← evalArgument expr "list" eval env).asList
  match arrayAccess (accessIndex k) d with
  | some found => some found
  | none => evalGet expr "default" .none eval env

/-- `EmptyMapExpr`. -/
def emptyMapForm : Function := fun _ _ _ => some (.map [])

def singletonMapExpr : Function := fun eval expr env => do
  let key ← evalArgument expr "key" eval env
  let value ← evalArgument expr "value" eval env
  return .map [(← key.asString, value)]

def toSubdirExpr : Function := fun eval expr env => do
  let d ← evalArgument expr "$1" eval env
  let s ← evalGet expr "subdir" (.string (lit ".")) eval env
  let flat ← evalGet expr "flat" (.bool false) eval env
  toSubdir d s (valueIsTrue flat)

def fromSubdirExpr : Function := fun eval expr env => do
  let d ← evalArgument expr "$1" eval env
  let s ← evalGet expr "subdir" (.string (lit ".")) eval env
  fromSubdir d s

def foreachExpr : Function := fun eval expr env => do
  let range ← (← evalGet expr "range" (.list []) eval env).asList
  let var := Value.get expr "var" (.string (lit "_"))
  let body := Value.get expr "body" (.list [])
  return .list (← range.mapM fun x => do eval body (env.update (← var.asString) x))

def foreachMapExpr : Function := fun eval expr env => do
  let range ← (← evalGet expr "range" emptyMapExpr eval env).asMap
  let var := Value.get expr "var_key" (.string (lit "_"))
  let varVal := Value.get expr "var_val" (.string (lit "$_"))
  let body := Value.get expr "body" (.list [])
  return .list (← range.mapM fun it => do
    eval body ((env.update (← var.asString) (.string it.1)).update (← varVal.asString) it.2))

/-- `ZipWithExpr` — the second range is not evaluated if the first is empty. -/
def zipWithExpr : Function := fun eval expr env => do
  let range1 ← (← evalGet expr "range_1" (.list []) eval env).asList
  if range1.isEmpty then return .list []
  let range2 ← (← evalGet expr "range_2" (.list []) eval env).asList
  let var1 := Value.get expr "var_1" (.string (lit "$1"))
  let var2 := Value.get expr "var_2" (.string (lit "$2"))
  let body := Value.get expr "body" (.list [])
  return .list (← (range1.zip range2).mapM fun it => do
    eval body ((env.update (← var1.asString) it.1).update (← var2.asString) it.2))

/-- `ZipMapExpr` — the second range is not evaluated if the first is empty. -/
def zipMapExpr : Function := fun eval expr env => do
  let rangeKey ← (← evalGet expr "range_key" (.list []) eval env).asList
  if rangeKey.isEmpty then return .map []
  let rangeVal ← (← evalGet expr "range_val" (.list []) eval env).asList
  let entries ← (rangeKey.zip rangeVal).mapM fun it => do return (← it.1.asString, it.2)
  return .map (store entries)

/-- `FoldLeftExpr` — of equal variables the one for the entry counts. -/
def foldLeftExpr : Function := fun eval expr env => do
  let var := Value.get expr "var" (.string (lit "_"))
  let accumVar := Value.get expr "accum_var" (.string (lit "$1"))
  let range ← evalArgument expr "range" eval env
  let start ← evalGet expr "start" (.list []) eval env
  let body := Value.get expr "body" (.list [])
  (← range.asList).foldlM (fun val x => do
    let changes := emplaceAll [(← var.asString, x), (← accumVar.asString, val)] []
    eval body (env.updateAll changes)) start

/-- The bindings of `LetExpr`, one after the other. -/
def letBindings (eval : SubExprEvaluator) : List Value → Configuration → Option Configuration
  | [], env => some env
  | .list [.string name, expr] :: bindings, env => do
    letBindings eval bindings (env.update name (← eval expr env))
  | _, _ => none

def letExpr : Function := fun eval expr env => do
  let bindings ← (Value.get expr "bindings" (.list [])).asList
  evalGet expr "body" (.map []) eval (← letBindings eval bindings env)

def envExpr : Function := fun _ expr env =>
  match find (lit "vars") expr with
  | none => some (.map [])
  | some vars => do return .map (env.prune (← (← vars.asList).mapM Value.asString))

def concatTargetNameExpr : Function := fun eval expr env => do
  let p1 ← evalGet expr "$1" (.string []) eval env
  let p2 ← evalGet expr "$2" (.string []) eval env
  concatTargetName p1 (← join false true p2 [])

def contextExpr : Function := fun eval expr env => evalGet expr "$1" .none eval env

def disjointUnionExpr : Function := fun eval expr env => do
  let argument ← evalArgument expr "$1" eval env
  if !argument.isCacheable then none
  union true argument

def failExpr : Function := fun _ _ _ => none

def assertExpr : Function := fun eval expr env => do
  let val ← evalArgument expr "$1" eval env
  let var ← (Value.get expr "var" (.string (lit "_"))).asString
  let pred ← evalArgument expr "predicate" eval (env.update var val)
  if valueIsTrue pred then some val else none

def assertNonEmptyExpr : Function := fun eval expr env => do
  let val ← evalArgument expr "$1" eval env
  match val with
  | .string text => if text.isEmpty then none else some val
  | .list items => if items.isEmpty then none else some val
  | .map fields => if fields.isEmpty then none else some val
  | _ => none

/-- `kBuiltInFunctions`. -/
def builtInFunctions (dump : Value → Option Str) : List (String × Function) := [
  ("var", varExpr), ("'", quoteExpr), ("`", quasiQuoteExpr), (",", onlyInQuasiQuote),
  (",@", onlyInQuasiQuote), ("if", ifExpr), ("cond", condExpr), ("case", caseExpr),
  ("case*", seqCaseExpr), ("fail", failExpr), ("assert", assertExpr),
  ("assert_non_empty", assertNonEmptyExpr), ("context", contextExpr), ("==", equalExpr),
  ("and", andExpr), ("or", orExpr), ("not", unaryExpr not), ("++", unaryExpr flatten),
  ("+", unaryExpr addition), ("*", unaryExpr multiplication), ("nub_right", unaryExpr nubRight),
  ("nub_left", unaryExpr nubLeft), ("range", unaryExpr range),
  ("change_ending", changeEndingExpr), ("basename", unaryExpr baseName), ("join", joinExpr),
  ("join_cmd", joinCmdExpr), ("json_encode", jsonEncodeExpr dump),
  ("escape_chars", escapeCharsExpr), ("keys", unaryExpr keys),
  ("enumerate", unaryExpr enumerate), ("set", unaryExpr set), ("reverse", unaryExpr reverse),
  ("length", unaryExpr length), ("values", unaryExpr values), ("lookup", lookupExpr),
  ("[]", arrayAccessExpr), ("empty_map", emptyMapForm), ("singleton_map", singletonMapExpr),
  ("disjoint_map_union", disjointUnionExpr), ("map_union", unaryExpr (union false)),
  ("to_subdir", toSubdirExpr), ("from_subdir", fromSubdirExpr), ("foreach", foreachExpr),
  ("foreach_map", foreachMapExpr), ("zip_with", zipWithExpr), ("zip_map", zipMapExpr),
  ("foldl", foldLeftExpr), ("let*", letExpr), ("env", envExpr),
  ("concat_target_name", concatTargetNameExpr)]

end Evaluator

open Evaluator

/-- What a provider function does with its expression: evaluate parts of it in the environment it
was called in, and answer in the end. -/
inductive Request where
  | answer (result : Option Value)
  | evaluate (expr : Value) (next : Option Value → Request)

namespace Request

/-- Serve the evaluations of a call. -/
def run (eval : Value → Option Value) : Request → Option Value
  | answer result => result
  | evaluate expr next => run eval (next (eval expr))

/-- The terms that a call may ask to be evaluated. -/
inductive Asks : Request → Value → Prop where
  | first (expr : Value) (next : Option Value → Request) : Asks (evaluate expr next) expr
  | later {expr target : Value} {next : Option Value → Request} (result : Option Value)
      (asks : Asks (next result) target) : Asks (evaluate expr next) target

end Request

/-- The terms that forms evaluate in place of a missing field. -/
def IsDefault (expr : Value) : Prop :=
  expr.depth = 0 ∨ expr = .list [] ∨ expr = .map [] ∨ expr = emptyMapExpr

/-- A function that a rule provides: it evaluates parts of its expression and defaults only. -/
structure ProviderFunction where
  call : Fields → Request
  within : ∀ fields part, (call fields).Asks part →
    part.depth < (Value.map fields).depth ∨ IsDefault part

/-- What an evaluation is given from outside: the texts of JSON values and the functions of a rule,
none of which has the name of a built-in function. -/
structure Library where
  /-- `ToJson(JsonMode::NullForNonJson).dump()`. -/
  dump : Value → Option Str
  provider : Str → Option ProviderFunction
  builtIn_eq_none : ∀ name function, provider name = some function →
    ∀ entry ∈ builtInFunctions dump, lit entry.1 ≠ name

/-- `ExpressionFunction` — a named expression with its variables and imports. -/
inductive ExpressionFunction where
  | mk (vars : List Str) (imports : List (Str × ExpressionFunction)) (expr : Value)

mutual
/-- How much fuel the body of an expression function takes. -/
def ExpressionFunction.weight : ExpressionFunction → Nat
  | .mk _ imports expr => expr.depth + 1 + importsWeight imports

/-- How much fuel calls of imported functions take. -/
def importsWeight : List (Str × ExpressionFunction) → Nat
  | [] => 0
  | (_, function) :: rest => max function.weight (importsWeight rest)
end

/-- `FunctionMap::MakePtr(kBuiltInFunctions, provider_functions)`. -/
def libraryFunction (library : Library) (type : Str) : Option Function :=
  match library.provider type with
  | some function => some fun eval expr env => (function.call expr).run fun part => eval part env
  | none => find type ((builtInFunctions library.dump).map fun (name, function) =>
      (lit name, function))

/-- `imports_caller` — evaluate an imported expression in its pruned environment. `evaluate`
evaluates under given imports. -/
def importsCaller (evaluate : Option (List (Str × ExpressionFunction)) → SubExprEvaluator)
    (imports : List (Str × ExpressionFunction)) : Function := fun _ expr env => do
  let name ← (← find (lit "name") expr).asString
  let .mk vars inner body ← find name imports
  evaluate (some inner) body (env.prune vars)

/-- What `functions->Find(type)` finds: inside an expression function, `CALL_EXPRESSION` calls its
imports. -/
def functionFor (library : Library)
    (evaluate : Option (List (Str × ExpressionFunction)) → SubExprEvaluator)
    (imports : Option (List (Str × ExpressionFunction))) (type : Str) : Option Function :=
  match imports with
  | none => libraryFunction library type
  | some table =>
    if type = lit "CALL_EXPRESSION" then some (importsCaller evaluate table)
    else libraryFunction library type

/-- `Evaluator::Evaluate` with a bound on the depth of the recursion. `imports` are the imports of
the expression function that is being evaluated, if there is one. -/
def evaluateWithin (library : Library) :
    Nat → Option (List (Str × ExpressionFunction)) → SubExprEvaluator
  | 0, _, _, _ => none
  | fuel + 1, imports, expr, env =>
    let eval := evaluateWithin library fuel
    match expr with
    | .list items => do return .list (← items.mapM fun e => eval imports e env)
    | .map fields => do
      let type ← token fields
      let function ← functionFor library eval imports type
      function (eval imports) fields env
    | atom => some atom

/-- The weight of the imports that are in scope. -/
def scopeWeight (imports : Option (List (Str × ExpressionFunction))) : Nat :=
  (imports.map importsWeight).getD 0

/-- `Evaluator::Evaluate` — evaluation is bounded by the depths of the expressions involved. -/
def evaluate (library : Library) (imports : Option (List (Str × ExpressionFunction)))
    (expr : Value) (env : Configuration) : Option Value :=
  evaluateWithin library (expr.depth + 1 + scopeWeight imports) imports expr env

end Jst.Expression
