import Jst.Utils.Number
/-!
# The syntax trees of jst

The node classes of `ast.hpp`. A node knows the type of the value it evaluates to and, for literals,
whether that value is true. Locations, which only go into error messages, are left out; a null
pointer is `none`.
-/
namespace Jst.Lang

open Number

inductive ValueType where
  | null | bool | number | string | list | map | ref | func | any
deriving DecidableEq

/-- `TypeToString`. -/
def ValueType.toString : ValueType → Str
  | null => lit "Null"
  | bool => lit "Bool"
  | number => lit "Number"
  | string => lit "String"
  | list => lit "List"
  | map => lit "Map"
  | ref => lit "Ref"
  | func => lit "Func"
  | any => lit "Any"

/-- `VerbatimType` — how much of a node is written out as it stands: nothing, the node itself, or
the node and everything below. -/
inductive VerbatimType where
  | none | flat | full
deriving DecidableEq

inductive RefType where
  | ext | abs | rel | local
deriving DecidableEq

structure RefData where
  type : RefType
  repo : Option Str
  module : Str
  target : Option Str
deriving DecidableEq

/-- `UnaryOperationNode::Type`. -/
inductive UnaryOperation where
  | not | minus
deriving DecidableEq

/-- `BinaryOperationNode::Type`. -/
inductive BinaryOperation where
  | and | or | equal | plus | multiplication
deriving DecidableEq

/-- Where a `VarNode` comes from. The source does not record this and nothing in the program depends
on it; it is kept to speak about the nodes of one kind. -/
inductive VarOrigin where
  /-- `$'name'` or `jst.env`: the variable is read from the configuration. -/
  | runtime
  | iteration
deriving DecidableEq

/-- `ASTNode`, by its node classes. -/
inductive Node where
  /-- `LetNode`. -/
  | bind (name : Str) (value next : Node)
  /-- `FuncNode` — parameters with their default values, and the body. -/
  | func (params : List (Str × Option Node)) (body : Node)
  /-- `BuiltinNode`. -/
  | builtin (name : Str)
  /-- `CallNode` of an identifier; a variable is read if there is no parameter list. -/
  | callName (target : Str) (params : Option (List (Option Str × Node)))
  /-- `CallNode` of an expression. -/
  | callExpr (target : Node) (params : Option (List (Option Str × Node)))
  /-- `CallNode` of a built-in function. -/
  | callBuiltin (target : Str) (params : Option (List (Option Str × Node)))
  /-- `ForeignNode`. -/
  | foreign (expr : Node)
  /-- `VerbatimNode`, with the type it is given, if any. -/
  | verbatim (expr : Node) (type : VerbatimType) (valueType : Option ValueType)
  /-- `ListNode`. -/
  | list (items : List Node)
  /-- `MapNode`. -/
  | map (fields : List (Node × Node))
  /-- `BoolNode`. -/
  | bool (value : Bool)
  /-- `StringNode`. -/
  | string (value : Str)
  /-- `NumberNode`. -/
  | number (value : Double)
  /-- `NullNode`. -/
  | null
  /-- `VarNode`. -/
  | var (name : Str) (default : Option Node) (origin : VarOrigin)
  /-- `IfNode`. -/
  | ite (cond : Node) (thenBranch elseBranch : Option Node)
  /-- `ForEachNode`. -/
  | forEach (var : Str) (range body : Node)
  /-- `ZipWithNode`. -/
  | zipWith (var1 var2 : Str) (range1 range2 body : Node)
  /-- `FoldLeftNode`. -/
  | foldLeft (iterVar accuVar : Str) (init range body : Node)
  /-- `UnaryOperationNode`. -/
  | unary (type : UnaryOperation) (expr : Node) (valueType : Option ValueType)
  /-- `LookupNode`. -/
  | lookup (index container : Node) (default : Option Node)
  /-- `BinaryOperationNode`. -/
  | binary (type : BinaryOperation) (lhs rhs : Node) (valueType : Option ValueType)
  /-- `RefNode`. -/
  | ref (data : RefData)

namespace Node

def evalType : Node → ValueType
  | bind _ _ next => evalType next
  | func _ _ | builtin _ => .func
  | callName _ _ | callExpr _ _ | callBuiltin _ _ | var _ _ _ | lookup _ _ _ => .any
  | foreign expr => evalType expr
  | verbatim expr _ valueType => valueType.getD (evalType expr)
  | list _ | forEach _ _ _ | zipWith _ _ _ _ _ => .list
  | map _ => .map
  | bool _ => .bool
  | string _ => .string
  | number _ => .number
  | null => .null
  | ite _ thenBranch elseBranch =>
    -- a missing branch is the empty list
    if (match thenBranch with | some node => evalType node | none => .list) =
        (match elseBranch with | some node => evalType node | none => .list) then
      match thenBranch with | some node => evalType node | none => .list
    else .any
  | foldLeft _ _ init _ _ => evalType init
  | unary _ _ valueType | binary _ _ _ valueType => valueType.getD .any
  | ref _ => .ref

def truthValue : Node → Option Bool
  | list items => some !items.isEmpty
  | map fields => some !fields.isEmpty
  | bool value => some value
  | string value => some !value.isEmpty
  | number value => some !value.beq (.ofNat 0)
  | null => some false
  | ite _ (some thenBranch) (some elseBranch) =>
    if truthValue thenBranch = truthValue elseBranch then truthValue thenBranch else none
  | _ => none

/-- The node is a `FuncNode`. -/
def isFunc : Node → Bool
  | func _ _ => true
  | _ => false

/-- The node is a `StringNode`. -/
def isString : Node → Bool
  | string _ => true
  | _ => false

/-- The position of the node's class among the node classes (`ToVariant().index()`). -/
def index : Node → Nat
  | bind _ _ _ => 0
  | func _ _ => 1
  | builtin _ => 2
  | callName _ _ | callExpr _ _ | callBuiltin _ _ => 3
  | foreign _ => 4
  | verbatim _ _ _ => 5
  | list _ => 6
  | map _ => 7
  | bool _ => 8
  | string _ => 9
  | number _ => 10
  | null => 11
  | var _ _ _ => 12
  | ite _ _ _ => 13
  | forEach _ _ _ => 14
  | zipWith _ _ _ _ _ => 15
  | foldLeft _ _ _ _ _ => 16
  | unary _ _ _ => 17
  | lookup _ _ _ => 18
  | binary _ _ _ _ => 19
  | ref _ => 20

end Node

end Jst.Lang
