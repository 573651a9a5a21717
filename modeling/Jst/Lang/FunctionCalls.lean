import Jst.Lang.Parameters
import Mathlib.Logic.Function.Basic
/-!
# Calls of functions

When the call of a function is inlined, the body of the function is inlined in a scope of its own, in
which the arguments and default values are defined. How expressions are inlined, in the scope of the
caller or in that of the function, is left to parameters. The location in front of an error's text is
left out.
-/
namespace Jst.Lang

/-- `FuncNode::params_t` — parameters, some of which have default values. -/
abbrev FuncParams := List (Str × Option Node)

/-- `ScopeDefs` — what the scope of a function defines by itself. -/
abbrev ScopeDefs := Str → Option Node

def ScopeDefs.addDef (defs : ScopeDefs) (name : Str) (node : Node) : ScopeDefs :=
  update defs name (some node)

namespace ASTInlineVisitor

/-- The parameters without default value. -/
def numMandatory (params : FuncParams) : Nat := params.countP fun param => param.2.isNone

/-- A failure during the inlining of a call. -/
def inlineCall {α : Type} (result : Except Str α) : Except Str α :=
  result.mapError (lit "Inlining function call failed with:\n" ++ ·)

variable (inlineFunctions : Node → Except Str Node) (inlineIn : ScopeDefs → Node → Except Str Node)

/-- The loop of `InlineFuncBody` — the `i`-th argument is defined under its own name, or that of the
`i`-th parameter; parameters after the last argument have their default values. -/
def addArguments : FuncParams → Params → ScopeDefs → Except Str ScopeDefs
  | [], _, defs => .ok defs
  | (pname, _) :: params, (cname, cexpr) :: args, defs => do
    let expr ← inlineFunctions cexpr
    addArguments params args (defs.addDef (cname.getD pname) expr)
  | (pname, some pdefault) :: params, [], defs => do
    let expr ← inlineIn defs pdefault
    addArguments params [] (defs.addDef pname expr)
  | (pname, none) :: _, [], _ => .error (lit "Missing function argument '" ++ pname ++ lit "'.")

/-- The scope in which `InlineFuncBody` inlines the body. -/
def functionScope (params : FuncParams) (args : Params) : Except Str ScopeDefs :=
  if params.isEmpty then .ok fun _ => none
  else if args.length < numMandatory params then
    .error (lit "Missing mandatory arguments for calling function.")
  else inlineCall (addArguments inlineFunctions inlineIn params args fun _ => none)

/-- `InlineFuncBody` — without a parameter list the function is read like a variable. -/
def inlineFuncBody (params : FuncParams) (body : Node) : Option Params → Except Str Node
  | none => .error (lit "Expected function call.")
  | some args => do
    let scope ← functionScope inlineFunctions inlineIn params args
    if params.isEmpty then .ok body else inlineCall (inlineIn scope body)

end ASTInlineVisitor

end Jst.Lang
