import Jst.Lang.Parameters
import Jst.Lang.ToJson
/-!
# Built-in functions on truth and JSON

`BuiltIn::all`, `any`, `negate` and `json_encode`, and the choice between the branches of an `if`,
which decide by the truth values or the JSON of literals.
-/
namespace Jst.Lang.BuiltIn

open Jst.Expression

/-- The loop of `all` and `any` over a literal list: the first item with the truth value that settles
the result, or else the opposite if the truth values of all items are known. -/
def settledBy (truth : Bool) (items : List Node) : Option Node :=
  if items.any fun item => item.truthValue = some truth then some (.bool truth)
  else if items.all fun item => item.truthValue.isSome then some (.bool !truth)
  else none

/-- A function of a list of conditions that one truth value settles. -/
def quantifier (builtin form : String) (truth : Bool) (args : Params) : Except Str Branches :=
  withParameters builtin [⟨"args", [.any, .list], true⟩] args fun named => do
    let argsNode ← retrieve builtin named "args"
    return {
      static := .ok (match argsNode with
        | .list items => settledBy truth items
        | _ => none)
      fallback := runtimeCall form [("$1", argsNode)] .bool }

def all : Params → Except Str Branches := quantifier "all" "and" false

def any : Params → Except Str Branches := quantifier "any" "or" true

def negate (args : Params) : Except Str Branches :=
  withParameters "not" [⟨"expr", [], true⟩] args fun named => do
    let expr ← retrieve "not" named "expr"
    return {
      static := .ok (expr.truthValue.map fun truth => .bool !truth)
      fallback := runtimeCall "not" [("$1", expr)] .bool }

/-- The parameter that `json_encode` expects. -/
def jsonEncodeParameters : List ExpectedParameter := [⟨"data", [], true⟩]

/-- `BuiltIn::json_encode`; `dump` is the text of a JSON value, or what it throws. -/
def jsonEncode (dump : Value → Except Str Str) (args : Params) : Except Str Branches :=
  withParameters "json_encode" jsonEncodeParameters args fun named => do
    let data ← retrieve "json_encode" named "data"
    return {
      static := match data.toJson true .full with
        | some json => do return some (.string (← dump json))
        | none => .ok none
      fallback := runtimeCall "json_encode" [("$1", data)] .string }

/-- `ASTInlineVisitor::operator()(IfNode)` on a condition and branches that are inlined. -/
def chooseBranch (cond : Node) (thenBranch elseBranch : Option Node) : Node :=
  match cond.truthValue with
  | some truth => (if truth then thenBranch else elseBranch).getD (.list [])
  | none => .ite cond thenBranch elseBranch

end Jst.Lang.BuiltIn
