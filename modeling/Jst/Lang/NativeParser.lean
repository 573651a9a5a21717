import Jst.Data.Consumer
import Jst.Lang.Lexer
import Jst.Lang.Ref
/-!
# Native parser

The recursive descent of `NativeParser` from tokens to syntax trees. The token stream is the list of
the tokens that are left. The parser of a file calls itself for the files that the file imports;
here the result of an import is a parameter, and `Import` ties the knot. The functions that call
each other carry the number of calls that may still be nested.

Locations are left out of nodes and of the front of messages. Where the code looks at the next token
only for a location, it still fails without one.
-/
namespace Jst.Lang

/-- `FileLocation` — a repository and the elements of a path in it, by which paths are compared. -/
structure FileLocation where
  repo : Str
  path : List Str
deriving DecidableEq

/-- What a parser may fail with: a message, a cycle of imports, a call of `std::terminate`, or too
many nested calls. -/
inductive ParseError where
  | message (text : Str)
  | cycle (chain : List FileLocation)
  | terminate
  | depth
deriving DecidableEq

namespace NativeParser

/-- A step of the parser: it reads tokens from the front of the stream. -/
abbrev Parse (Result : Type) := Consumer Token ParseError Result

/-- `kApplyPriority`. -/
def applyPriority : Nat := 2

/-- `kUnaryPriority`. -/
def unaryPriority : Nat := 4

/-- `kMaxPriority`. -/
def maxPriority : Nat := 15

/-- `kBinaryMap`. -/
def binaryMap : List (Str × BinaryOperation) :=
  [(lit "-", .plus), (lit "+", .plus), (lit "==", .equal), (lit "!=", .equal), (lit "&&", .and),
    (lit "||", .or), (lit "*", .multiplication)]

/-- `kUnaryMap`. -/
def unaryMap : List (Str × UnaryOperation) := [(lit "!", .not), (lit "-", .minus)]

/-- `kPrecedenceMap`. -/
def precedence : BinaryOperation → Nat
  | .plus => 6
  | .equal => 9
  | .and => 10
  | .or => 14
  | .multiplication => 5

def makeOperationNode (lhs rhs : Node) (bop : BinaryOperation) (negate minus : Bool) : Node :=
  let node := match bop with
    | .equal | .and | .or => .binary bop lhs rhs (some .bool)
    | .multiplication => .binary bop lhs rhs (some .number)
    | .plus =>
      if minus then .binary bop lhs (.unary .minus rhs none) (some .number)
      else .binary bop lhs rhs (some .any)
  if negate then .unary .not node none else node

/-- `TokenTypeToString`; the types without a text terminate the program. -/
def typeToString : TokenType → Option Str
  | .braceL => lit "\"\x7b\""
  | .braceR => lit "\"\x7d\""
  | .bracketL => lit "\"[\""
  | .bracketR => lit "\"]\""
  | .comma => lit "\",\""
  | .dot => lit "\".\""
  | .parenL => lit "\"(\""
  | .parenR => lit "\")\""
  | .semicolon => lit "\";\""
  | .identifier => lit "IDENTIFIER"
  | .number => lit "NUMBER"
  | .operator => lit "OPERATOR"
  | .stringSingle => lit "STRING_SINGLE"
  | .stringDouble => lit "STRING_DOUBLE"
  | .refString => lit "REF_STRING"
  | .varString => lit "VAR_STRING"
  | .textBlock => lit "TEXT_BLOCK"
  | .float | .integer => none
  | .assert => lit "assert"
  | .else => lit "else"
  | .error => lit "error"
  | .false => lit "false"
  | .for => lit "for"
  | .function => lit "function"
  | .if => lit "if"
  | .import => lit "import"
  | .in => lit "in"
  | .local => lit "local"
  | .nullLit => lit "null"
  | .then => lit "then"
  | .true => lit "true"

def parserException {Result : Type} (text : Str) : Parse Result :=
  throw (.message (lit "Parser error: " ++ text))

/-- The place of a token in a message. -/
def placeText (token : Token) : Str :=
  lit "(" ++ lit (toString token.position.line) ++ lit ":" ++
    lit (toString token.position.column) ++ lit ")"

def unexpected {Result : Type} (filename : Str) (token : Token) (doing : Str) : Parse Result :=
  match typeToString token.type with
  | some type =>
    parserException (filename ++ placeText token ++ lit " unexpected (" ++ type ++ lit ":" ++
      token.value ++ lit ") while " ++ doing)
  | none => throw .terminate

def size : Parse Nat := do return (← get).length

def advance : Parse Unit := modify List.tail

def peek : Parse Token := do
  match ← get with
  | token :: _ => return token
  | [] => throw (.message (lit "No token available"))

def peekNext : Parse Token := do
  match ← get with
  | _ :: token :: _ => return token
  | _ => throw (.message (lit "No next token available"))

def pop : Parse Token := do
  let token ← peek
  advance
  return token

def popCheck (type : TokenType) (value : Option Str) : Parse Token := do
  let token ← pop
  if token.type ≠ type then
    match typeToString type, typeToString token.type with
    | some expected, some got =>
      throw (.message (placeText token ++ lit "expecting token " ++ expected ++ lit " but got " ++
        got))
    | _, _ => throw .terminate
  else
    match value with
    | none => return token
    | some expected =>
      if token.value ≠ expected then
        throw (.message (placeText token ++ lit "expecting value " ++ expected ++
          lit " but got " ++ token.value))
      else return token

/-- Read a comma if there is one. -/
def skipComma : Parse Bool := do
  let tok ← peek
  if tok.type = .comma then do
    advance
    return true
  else return false

/-- The end of a call; the last token of all is left. -/
def closeCall : Parse Unit := do
  if (← size) ≥ 2 then do
    let _ ← popCheck .parenR none
    return ()
  else return ()

/-- The name in front of `=` in an argument, and the value of the first token if it may be a name.
-/
def parseName (next : Token) : Parse (Option Str × Str) := do
  if next.type = .identifier ∨ next.type = .stringSingle ∨ next.type = .stringDouble then do
    let maybeEq ← peekNext
    if maybeEq.type = .operator ∧ maybeEq.value = lit "=" then do
      advance
      advance
      return (some next.value, next.value)
    else return (none, next.value)
  else return (none, [])

/-- What the parser of a file knows: the name of the file and how imports are read. -/
structure Context where
  filename : Str
  load : Str → Except ParseError Node

/-- An argument in a list of arguments: its name if it has the form `name = expr`, the value of its
first token if that may be a name, and the expression. -/
structure Argument where
  name : Option Str
  tempName : Str
  expr : Node

/-- `FuncNode::params_t`. -/
def funcParams (arguments : List Argument) : List (Str × Option Node) :=
  arguments.map fun argument =>
    match argument.name with
    | some name => (name, some argument.expr)
    | none => (argument.tempName, none)

/-- `CallNode::params_t`. -/
def callParams (arguments : List Argument) : List (Option Str × Node) :=
  arguments.map fun argument => (argument.name, argument.expr)

/-- A positional argument stands behind a named one. -/
def positionalBehindNamed : (gotNamed : Bool) → List (Option Str × Node) → Bool
  | _, [] => false
  | _, (some _, _) :: rest => positionalBehindNamed true rest
  | gotNamed, (none, _) :: rest => gotNamed || positionalBehindNamed gotNamed rest

/-- The `CallNode` for a list of arguments behind an expression: of a `CallNode` the target is taken
over. -/
def makeCall (lhs : Node) (params : List (Option Str × Node)) : Node :=
  match lhs with
  | .callName target _ => .callName target (some params)
  | .callExpr target _ => .callExpr target (some params)
  | .callBuiltin target _ => .callBuiltin target (some params)
  | _ => .callExpr lhs (some params)

inductive FieldState where
  | firstField | expectingFieldOrClose | expectingCommaOrClose
deriving DecidableEq

/-- What can be read as a name in a map or in front of `=`. -/
def isText (type : TokenType) : Bool :=
  type = .identifier ∨ type = .stringSingle ∨ type = .stringDouble ∨ type = .textBlock

mutual
def parse (context : Context) : (depth : Nat) → (priority : Nat) → Parse Node
  | 0, _ => throw .depth
  | depth + 1, priority => do
    match ← parseLocalImport context depth with
    | some ast => return ast
    | none =>
      let _ ← peek
      let lhs ← parseSimple context depth
      parseInfix context depth lhs priority

def parseSimple (context : Context) : (depth : Nat) → Parse Node
  | 0 => throw .depth
  | depth + 1 => do
    let tok ← pop
    match tok.type with
    | .assert | .braceR | .bracketR | .comma | .dot | .else | .error | .for | .function | .if | .in
    | .import | .parenR | .semicolon | .then => unexpected context.filename tok (lit "parsing terminal")
    | .operator =>
      match unaryMap.lookup tok.value with
      | none =>
        parserException (lit "only support unary operator \"!\" and \"-\", but got:" ++ tok.value)
      | some uop => do
        let expr ← parse context depth unaryPriority
        let valueType := match uop with
          | .not => ValueType.bool
          | .minus => .number
        return .unary uop expr (some valueType)
    | .braceL => do
      let _ ← peek
      parseContent context depth [] [] .firstField
    | .bracketL => do
      let tok ← peek
      if tok.type = .bracketR then do
        advance
        return .list []
      else do
        let first ← parse context depth maxPriority
        let tok ← peek
        let gotComma ← skipComma
        if tok.type = .for then do
          advance
          let idTok ← popCheck .identifier none
          let _ ← popCheck .in none
          let range ← parse context depth maxPriority
          let _ ← popCheck .bracketR none
          let _ ← peek
          return .forEach idTok.value range first
        else parseItems context depth [first] gotComma
    | .parenL => do
      let body ← parse context depth maxPriority
      let _ ← popCheck .parenR none
      return body
    | .float | .integer | .number =>
      match Number.stod tok.value with
      | some value => return .number value
      | none => throw (.message (lit "stod"))
    | .stringSingle | .stringDouble | .textBlock => return .string tok.value
    | .refString =>
      match Ref.decodeRefString tok.value .target with
      | .ok data => return .ref data
      | .error text => throw (.message text)
    | .varString => return .var tok.value none .runtime
    | .false => return .bool false
    | .true => return .bool true
    | .nullLit => return .null
    | .identifier => return .callName tok.value none
    -- `parseLocalImport` takes this one
    | .local => throw .terminate

/-- The loop of `NativeParser::ParseSimple` over the items of a list; a comma is only asked for in
front of the second item. -/
def parseItems (context : Context) : (depth : Nat) → List Node → (gotComma : Bool) → Parse Node
  | 0, _, _ => throw .depth
  | depth + 1, items, gotComma => do
    let tok ← peek
    if tok.type = .bracketR then do
      advance
      let _ ← peek
      return .list items
    else if !gotComma then parserException (lit "expected a comma before next array element.")
    else do
      let expr ← parse context depth maxPriority
      let _ ← skipComma
      parseItems context depth (items ++ [expr]) gotComma

def parseInfix (context : Context) : (depth : Nat) → Node → (maxPriority : Nat) → Parse Node
  | 0, _, _ => throw .depth
  | depth + 1, lhs, max => do
    if (← size) < 2 then return lhs
    else do
      let next ← peek
      match next.type with
      | .in | .operator =>
        if next.value = lit ":" ∨ next.value = lit "::" then return lhs
        else
          match binaryMap.lookup next.value with
          | none => parserException (lit "not a binary operator: " ++ next.value)
          | some bop =>
            if precedence bop ≥ max then return lhs
            else do
              advance
              let rhs ← parse context depth (precedence bop)
              let negate := decide (bop = .equal ∧ next.value = lit "!=")
              let minus := decide (bop = .plus ∧ next.value = lit "-")
              parseInfix context depth (makeOperationNode lhs rhs bop negate minus) max
      | .dot =>
        if applyPriority ≥ max then return lhs
        else do
          advance
          let fieldId ← popCheck .identifier none
          parseInfix context depth (.lookup (.string fieldId.value) lhs none) max
      | .bracketL =>
        if applyPriority ≥ max then return lhs
        else do
          advance
          let begin' ← peek
          if begin'.type = .braceR then
            parserException (lit "unexpected bracket_r when parsing index")
          else if begin'.value = lit ":" ∨ begin'.value = lit "::" then
            -- a slice; the token cannot be the closing bracket
            parserException (lit "does not support slice")
          else do
            let target ← parse context depth maxPriority
            let close ← peek
            if close.type ≠ .bracketR then parserException (lit "does not support slice")
            else do
              advance
              let _ ← peek
              parseInfix context depth (.lookup target lhs none) max
      | .parenL =>
        if applyPriority ≥ max then return lhs
        else do
          advance
          let params := callParams (← parseArgs context depth true false)
          closeCall
          let _ ← peek
          if positionalBehindNamed false params then
            parserException (lit "Positional argument after a named argument is not allowed")
          else parseInfix context depth (makeCall lhs params) max
      | .braceL =>
        if applyPriority ≥ max then return lhs
        else do
          advance
          parserException (lit "should not be here")
      | _ => return lhs

/-- `NativeParser::ParseContent` — the fields of a map from the next one on. -/
def parseContent (context : Context) : (depth : Nat) → List (Node × Node) → (seen : List Str) →
    FieldState → Parse Node
  | 0, _, _, _ => throw .depth
  | depth + 1, fields, seen, state => do
    let tok ← peek
    if tok.type = .braceR then do
      if (← size) > 1 then advance
      return .map fields
    else if tok.type = .for then do
      advance
      let idTok ← popCheck .identifier none
      let _ ← popCheck .in none
      let range ← parse context depth maxPriority
      let _ ← popCheck .braceR none
      return .callBuiltin (lit "union")
        (some [(some (lit "maps"), .forEach idTok.value range (.map fields))])
    else if state = .expectingCommaOrClose then
      parserException (lit "expected a comma before next field.")
    else do
      let (field, seen) ← parseField context depth tok seen
      let gotComma ← skipComma
      parseContent context depth (fields ++ [field]) seen
        (if gotComma then .expectingFieldOrClose else .expectingCommaOrClose)

/-- A field in `NativeParser::ParseContent`, with the names that were seen behind it. -/
def parseField (context : Context) : (depth : Nat) → Token → (seen : List Str) →
    Parse ((Node × Node) × List Str)
  | 0, _, _ => throw .depth
  | depth + 1, tok, seen => do
    let (lhs, seen) ← parseKey context depth tok seen
    let next ← peek
    if next.type = .parenL then do
      advance
      let arguments ← parseArgs context depth true false
      let _ ← popCheck .parenR none
      let rhs ← parseValue context depth
      return ((lhs, .func (funcParams arguments) rhs), seen)
    else do
      let rhs ← parseValue context depth
      return ((lhs, rhs), seen)

/-- The value of a field in `NativeParser::ParseContent`, behind a colon. -/
def parseValue (context : Context) : (depth : Nat) → Parse Node
  | 0 => throw .depth
  | depth + 1 => do
    let colon ← popCheck .operator none
    if colon.value ≠ lit ":" then parserException (lit "Expecting a colon after lhs.")
    else parse context depth maxPriority

/-- The key of a field in `NativeParser::ParseContent`; the names that were seen may not come again.
-/
def parseKey (context : Context) : (depth : Nat) → Token → (seen : List Str) →
    Parse (Node × List Str)
  | 0, _, _ => throw .depth
  | depth + 1, tok, seen => do
    if isText tok.type then
      if tok.value ∈ seen then parserException (lit "Duplicate identifier found")
      else do
        advance
        return (.string tok.value, tok.value :: seen)
    else
      match tok.type with
      | .refString =>
        match Ref.decodeRefString tok.value .target with
        | .ok data => do
          advance
          return (.ref data, seen)
        | .error text => throw (.message text)
      | .varString => do
        advance
        return (.var tok.value none .runtime, seen)
      | .bracketL => do
        advance
        let lhs ← parse context depth maxPriority
        let _ ← popCheck .bracketR none
        return (lhs, seen)
      | _ => unexpected context.filename tok (lit "parsing field definition")

def parseLocalImport (context : Context) : (depth : Nat) → Parse (Option Node)
  | 0 => throw .depth
  | depth + 1 => do
    let start ← peek
    match start.type with
    | .local => do
      advance
      let idf ← popCheck .identifier none
      let next ← peek
      if next.type = .parenL then do
        advance
        let params ← parseArgs context depth true false
        advance
        let _ ← popCheck .operator (some (lit "="))
        let body ← parse context depth maxPriority
        let _ ← popCheck .semicolon none
        let rest ← parse context depth maxPriority
        return some (.bind idf.value (.func (funcParams params) body) rest)
      else if next.type = .operator ∧ next.value = lit "=" then do
        advance
        let body ← parse context depth maxPriority
        let _ ← popCheck .semicolon none
        let rest ← parse context depth maxPriority
        return some (.bind idf.value body rest)
      else parserException (lit "Expecting PAREN_L or = but got")
    | .import => do
      advance
      let tok ← pop
      match tok.type with
      | .stringSingle | .stringDouble => do
        -- the order of reading the file and of looking at the next token is not specified
        let ast ← context.load tok.value
        let _ ← peek
        return some (.foreign ast)
      | .refString => parserException (lit "Imports from ref-strings are not supported.")
      | _ => parserException (lit "Only imports from plain path are supported.")
    | .function => do
      advance
      let next ← pop
      if next.type = .parenL then do
        let params ← parseArgs context depth true false
        advance
        let body ← parse context depth maxPriority
        return some (.func (funcParams params) body)
      else parserException (lit "Expecting a PAREN_L instead.")
    | .if => do
      advance
      let cond ← parse context depth maxPriority
      let _ ← popCheck .then none
      let branchTrue ← parse context depth maxPriority
      let next ← peek
      if next.type = .else then do
        advance
        let branchFalse ← parse context depth maxPriority
        return some (.ite cond (some branchTrue) (some branchFalse))
      else return some (.ite cond (some branchTrue) none)
    | _ => return none

def parseArgs (context : Context) : (depth : Nat) → (first gotComma : Bool) →
    Parse (List Argument)
  | 0, _, _ => throw .depth
  | depth + 1, first, gotComma => do
    let next ← peek
    if next.type = .parenR then return []
    else if !first && !gotComma then parserException (lit "expect a comma before next field")
    else do
      let (name, tempName) ← parseName next
      let expr ← parse context depth maxPriority
      let gotComma ← skipComma
      let rest ← parseArgs context depth false gotComma
      return ⟨name, tempName, expr⟩ :: rest
end

end NativeParser

end Jst.Lang
