import Jst.Lang.Import
/-!
# Operator trees

The expressions of the native grammar over operands of one token, the tokens they are printed with
and the nodes they stand for. Printing uses as few parentheses as the precedences and the
association to the left allow.
-/
namespace Jst.Lang

open NativeParser Number

/-- An operand of one token. -/
inductive Atom where
  | identifier (name : Str)
  | number (text : Str) (value : Double) (reads : stod text = some value)
  | string (type : TokenType)
    (isString : type = .stringSingle ∨ type = .stringDouble ∨ type = .textBlock) (value : Str)
  | reference (text : Str) (data : RefData) (reads : Ref.decodeRefString text .target = .ok data)
  | var (name : Str)
  | bool (value : Bool)
  | null

namespace Atom

/-- The token of an operand. -/
def content : Atom → TokenType × Str
  | identifier name => (.identifier, name)
  | number text _ _ => (.number, text)
  | string type _ value => (type, value)
  | reference text _ _ => (.refString, text)
  | var name => (.varString, name)
  | bool true => (.true, lit "true")
  | bool false => (.false, lit "false")
  | null => (.nullLit, lit "null")

/-- The node of an operand. -/
def node : Atom → Node
  | identifier name => .callName name none
  | number _ value _ => .number value
  | string _ _ value => .string value
  | reference _ data _ => .ref data
  | var name => .var name none .runtime
  | bool value => .bool value
  | null => .null

end Atom

/-- The binary operators of the grammar. -/
inductive Operator where
  | or | and | equal | notEqual | plus | minus | times
deriving DecidableEq

namespace Operator

/-- How an operator is written. -/
def text : Operator → Str
  | or => lit "||"
  | and => lit "&&"
  | equal => lit "=="
  | notEqual => lit "!="
  | plus => lit "+"
  | minus => lit "-"
  | times => lit "*"

/-- The place of an operator in the table of precedences. -/
def precedence : Operator → Nat
  | or => NativeParser.precedence .or
  | and => NativeParser.precedence .and
  | equal | notEqual => NativeParser.precedence .equal
  | plus | minus => NativeParser.precedence .plus
  | times => NativeParser.precedence .multiplication

/-- The node of an operation: `a - b` is `a + (-b)`, and `a != b` is `!(a == b)`. -/
def node (left right : Node) : Operator → Node
  | or => .binary .or left right (some .bool)
  | and => .binary .and left right (some .bool)
  | equal => .binary .equal left right (some .bool)
  | notEqual => .unary .not (.binary .equal left right (some .bool)) none
  | plus => .binary .plus left right (some .any)
  | minus => .binary .plus left (.unary .minus right none) (some .number)
  | times => .binary .multiplication left right (some .number)

end Operator

/-- How a prefix operator is written. -/
def UnaryOperation.text : UnaryOperation → Str
  | not => lit "!"
  | minus => lit "-"

/-- The type of a negation. -/
def UnaryOperation.valueType : UnaryOperation → ValueType
  | not => .bool
  | minus => .number

/-- An expression over operands of one token. The positional arguments of a call stand in front of
the named ones. -/
inductive OperatorTree where
  | atom (operand : Atom)
  | unary (operator : UnaryOperation) (operand : OperatorTree)
  | binary (operator : Operator) (left right : OperatorTree)
  | call (callee : OperatorTree) (positional : List OperatorTree)
    (named : List (Str × OperatorTree))
  | index (container position : OperatorTree)
  | field (container : OperatorTree) (name : Str)

namespace OperatorTree

/-- The precedence of the outermost operator. -/
def level : OperatorTree → Nat
  | atom _ | call _ _ _ | index _ _ | field _ _ => applyPriority
  | unary _ _ => unaryPriority
  | binary operator _ _ => operator.precedence

/-- What a token is compared by. -/
abbrev Content := TokenType × Str

/-- An expression in parentheses, if its precedence is above a limit. -/
def enclosed (limit level : Nat) (text : List Content) : List Content :=
  if level ≤ limit then text else (.parenL, lit "(") :: (text ++ [(.parenR, lit ")")])

/-- Texts with commas in between. -/
def joined : List (List Content) → List Content
  | [] => []
  | [text] => text
  | text :: rest => text ++ (.comma, lit ",") :: joined rest

mutual
/-- The tokens of an expression. -/
def print : OperatorTree → List Content
  | atom operand => [operand.content]
  | unary operator operand =>
    (.operator, operator.text) :: enclosed unaryPriority operand.level (print operand)
  | binary operator left right =>
    enclosed operator.precedence left.level (print left) ++
      (.operator, operator.text) ::
        enclosed (operator.precedence - 1) right.level (print right)
  | call callee positional named =>
    enclosed applyPriority callee.level (print callee) ++
      (.parenL, lit "(") ::
        (joined (printPositional positional ++ printNamed named) ++ [(.parenR, lit ")")])
  | index container position =>
    enclosed applyPriority container.level (print container) ++
      (.bracketL, lit "[") :: (print position ++ [(.bracketR, lit "]")])
  | field container name =>
    enclosed applyPriority container.level (print container) ++
      [(.dot, lit "."), (.identifier, name)]

/-- The tokens of positional arguments. -/
def printPositional : List OperatorTree → List (List Content)
  | [] => []
  | argument :: rest => print argument :: printPositional rest

/-- The tokens of named arguments. -/
def printNamed : List (Str × OperatorTree) → List (List Content)
  | [] => []
  | (name, argument) :: rest =>
    ((.identifier, name) :: (.operator, lit "=") :: print argument) :: printNamed rest
end

/-- The node of a call; a name is called without a node of its own. -/
def callNode (callee : OperatorTree) (target : Node) (params : List (Option Str × Node)) : Node :=
  match callee with
  | atom (.identifier name) => .callName name (some params)
  | _ => .callExpr target (some params)

mutual
/-- The node of an expression. -/
def node : OperatorTree → Node
  | atom operand => operand.node
  | unary operator operand => .unary operator (node operand) (some operator.valueType)
  | binary operator left right => operator.node (node left) (node right)
  | call callee positional named =>
    callNode callee (node callee) (nodePositional positional ++ nodeNamed named)
  | index container position => .lookup (node position) (node container) none
  | field container name => .lookup (.string name) (node container) none

/-- The parameters for positional arguments. -/
def nodePositional : List OperatorTree → List (Option Str × Node)
  | [] => []
  | argument :: rest => (none, node argument) :: nodePositional rest

/-- The parameters for named arguments. -/
def nodeNamed : List (Str × OperatorTree) → List (Option Str × Node)
  | [] => []
  | (name, argument) :: rest => (some name, node argument) :: nodeNamed rest
end

end OperatorTree

end Jst.Lang
