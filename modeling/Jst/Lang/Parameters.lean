import Jst.Lang.Ast
/-!
# Parameters of built-in functions

A built-in function names its parameters and the types it accepts for them. It tries to compute its
result from the arguments while the program is compiled; otherwise it leaves a call of a function of
the expression language for the evaluation. The location in front of an error's text is left out.
-/
namespace Jst.Lang

/-- `CallNode::params_t` — arguments, some of which are named. -/
abbrev Params := List (Option Str × Node)

/-- `NamedParams` — at most one argument for every name. -/
abbrev NamedParams := List (Str × Node)

structure ExpectedParameter where
  name : String
  types : List ValueType
  mandatory : Bool

/-- The first argument that is stored under a name. -/
def lookupParam (name : Str) (named : NamedParams) : Option Node :=
  (named.find? fun entry => entry.1 = name).map snd

/-- `MakeNamedParameters`, the first loop — give names to the nameless arguments, in order;
`nameless` are the expected parameters that no nameless argument has taken yet. -/
def gatherParams : Params → List ExpectedParameter → NamedParams → Except Str NamedParams
  | [], _, named => .ok named
  | (some name, node) :: args, nameless, named =>
    if (lookupParam name named).isSome then
      .error (lit "Parameter \"" ++ name ++ lit "\" is duplicated")
    else gatherParams args nameless (named ++ [(name, node)])
  | (none, _) :: _, [], _ => .error (lit "Too many nameless parameters")
  | (none, node) :: args, expected :: nameless, named =>
    if (lookupParam (lit expected.name) named).isSome then
      .error (lit "Parameter \"" ++ lit expected.name ++ lit "\" is duplicated")
    else gatherParams args nameless (named ++ [(lit expected.name, node)])

/-- `MakeNamedParameters`, the second loop — check that expected arguments are present and have an
expected type. -/
def checkParams (named : NamedParams) : List ExpectedParameter → Except Str Unit
  | [] => .ok ()
  | expected :: rest =>
    match lookupParam (lit expected.name) named with
    | none =>
      if expected.mandatory then
        .error (lit "An expected mandatory parameter \"" ++ lit expected.name ++
          lit "\" is missing.")
      else checkParams named rest
    | some node =>
      if expected.types ≠ [] ∧ node.evalType ∉ expected.types then
        .error (lit "\"" ++ lit expected.name ++ lit "\" does not accept argument type " ++
          node.evalType.toString ++ lit ".")
      else checkParams named rest

def makeNamedParameters (args : Params) (expected : List ExpectedParameter) :
    Except Str NamedParams := do
  let named ← gatherParams args expected []
  checkParams named expected
  return named

/-- What a built-in function does with its arguments: what it can compute while compiling, which is
an error or nothing or the result, and what it leaves for the evaluation otherwise. -/
structure Branches where
  static : Except Str (Option Node)
  fallback : Node

/-- The node that a built-in function returns. -/
def Branches.result (branches : Branches) : Except Str Node := do
  return (← branches.static).getD branches.fallback

/-- A `VerbatimNode` with the call of a function of the expression language. -/
def runtimeCall (form : String) (args : List (String × Node)) (type : ValueType) : Node :=
  .verbatim (.map ((.string (lit "type"), .string (lit form)) ::
    args.map fun (key, node) => (.string (lit key), node))) .flat (some type)

/-- An argument of a call that is only written if it was given. -/
def optionalArg (key : String) (node : Option Node) : List (String × Node) :=
  match node with
  | some node => [(key, node)]
  | none => []

/-- A built-in function: the parameters it expects, with the named ones bound, or an error that
names the function. -/
def withParameters (builtin : String) (expected : List ExpectedParameter) (args : Params)
    (body : NamedParams → Except Str Branches) : Except Str Branches :=
  match makeNamedParameters args expected with
  | .error message => .error (lit builtin ++ lit ": " ++ message)
  | .ok named => body named

/-- `RetrieveAs` of a parameter that the function cannot do without. -/
def retrieve (builtin : String) (named : NamedParams) (name : String) : Except Str Node :=
  match lookupParam (lit name) named with
  | some node => .ok node
  | none => .error (lit builtin ++ lit ": Missing mandatory parameter \"" ++ lit name ++ lit "\"")

end Jst.Lang
