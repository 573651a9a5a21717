import Jst.Common.RepositoryConfig
import Jst.Expression.TargetResult
import Jst.Utils.RelativePath
/-!
# Entity names

A reference to a target is a string, or a list that names a module and a target, possibly with a
marker for what kind of reference it is. It is parsed relative to the target in whose description it
stands. References are read from JSON and from expressions by the same code, which only needs to
know how to look into them.
-/
namespace Jst.Expression

open SortedMap Path Repositories

def normalModuleName (module : Str) : Str :=
  parentPath (lexicallyRelative (lexicallyNormal (slash :: (module ++ [slash]))) [slash])

/-- `NamedTarget::NamedTarget` — the module is normalised. -/
def NamedTarget.create (repository module name : Str) (referenceType : ReferenceType) :
    NamedTarget where
  repository := repository
  module := normalModuleName module
  name := name
  referenceType := referenceType

def globalName {Precomputed Digest : Type} (config : RepositoryConfig Precomputed Digest)
    (repo localName : Str) : Option Str := do
  let data ← find repo config.repos
  find localName data.info.nameMapping

mutual
def Expr.fromJson : JsonValue → Expr
  | .array items => .list (fromJsonItems items)
  | .object fields => .map (emplaceAll (fromJsonFields fields) [])
  | value => TargetResult.fromJsonLeaf value

/-- `Expression::FromJson` on the items of an array. -/
def Expr.fromJsonItems : List JsonValue → List Expr
  | [] => []
  | item :: rest => fromJson item :: fromJsonItems rest

/-- `Expression::FromJson` on the fields of an object. -/
def Expr.fromJsonFields : List (Str × JsonValue) → List (Str × Expr)
  | [] => []
  | (key, value) :: rest => (key, fromJson value) :: fromJsonFields rest
end

/-- How to look into a reference. -/
structure Reader (Source : Type) where
  /-- `IsString` and `GetString`. -/
  asString : Source → Option Str
  /-- `IsList` and `GetList`. -/
  asList : Source → Option (List Source)
  isNone : Source → Bool
  /-- `ToString`. -/
  toText : Source → Str

/-- Look into a reference in JSON. -/
def jsonReader (toText : JsonValue → Str) : Reader JsonValue where
  asString
    | .string value => some value
    | _ => none
  asList
    | .array items => some items
    | _ => none
  isNone
    | .null => true
    | _ => false
  toText := toText

/-- Look into a reference in an expression. -/
def exprReader (toText : Expr → Str) : Reader Expr where
  asString
    | .string value => some value
    | _ => none
  asList
    | .list items => some items
    | _ => none
  isNone
    | .none => true
    | _ => false
  toText := toText

/-- What is logged where a reference is not parsed. -/
abbrev Messages := List Str

section Parsing

variable {Source Precomputed Digest : Type} (reader : Reader Source)
variable (config : RepositoryConfig Precomputed Digest) (current : NamedTarget)

def parseEntityName2 (first second : Source) : Except Messages NamedTarget :=
  match reader.asString first, reader.asString second with
  | some module, some name => .ok (.create current.repository module name .target)
  | _, _ => .error []

/-- `ParseEntityNameFSReference`, the type of the reference. -/
def getRefType (marker : Str) : ReferenceType :=
  if marker = lit "FILE" then .file
  else if marker = lit "GLOB" then .glob
  else if marker = lit "SYMLINK" then .symlink
  else .tree

def parseEntityNameFSReference (marker : Str) (list : List Source) : Except Messages NamedTarget :=
  match list with
  | [_, middle, last] =>
    match reader.asString last with
    | some name =>
      let target := NamedTarget.create current.repository current.module name (getRefType marker)
      if reader.isNone middle then .ok target
      else if reader.asString middle = some here ∨ reader.asString middle = some current.module then
        .ok target
      else
        .error [lit "Invalid module name " ++ reader.toText middle ++ lit " for file reference"]
    | none => .error []
  | _ => .error []

def parseEntityNameRelative (list : List Source) : Except Messages NamedTarget :=
  match list with
  | [_, second, third] =>
    match reader.asString second, reader.asString third with
    | some relmodule, some name =>
      let module := lexicallyNormal (append current.module relmodule)
      if (lit "../").isPrefixOf module then
        .error [lit "Relative module name " ++ relmodule ++ lit " is outside of workspace"]
      else .ok (.create current.repository module name .target)
    | _, _ => .error []
  | _ => .error []

def parseEntityNameLocation (list : List Source) : Except Messages NamedTarget :=
  match list with
  | [_, second, third, fourth] =>
    match reader.asString second, reader.asString third, reader.asString fourth with
    | some localRepoName, some module, some target =>
      match globalName config current.repository localRepoName with
      | some repoName => .ok (.create repoName module target .target)
      | none => .error [lit "Cannot resolve repository name " ++ localRepoName]
    | _, _, _ => .error []
  | _ => .error []

def parseEntityName3 (first : Source) (list : List Source) : Except Messages NamedTarget :=
  match reader.asString first with
  | some marker =>
    if marker = lit "./" then parseEntityNameRelative reader current list
    else if marker = lit "@" then parseEntityNameLocation reader config current list
    else if marker = lit "#" then
      .error [lit "Parsing anonymous target is not supported. Identifiers of anonymous targets " ++
        lit "should be obtained as FIELD value of anonymous fields"]
    else if marker ∈ [lit "FILE", lit "TREE", lit "GLOB", lit "SYMLINK"] then
      parseEntityNameFSReference reader current marker list
    else .error []
  | none => .error []

/-- `ParseEntityName`, a list. -/
def parseList : List Source → Except Messages NamedTarget
  | [first, second] => parseEntityName2 reader current first second
  | first :: second :: third :: rest =>
    parseEntityName3 reader config current first (first :: second :: third :: rest)
  | _ => .error []

/-- `ParseEntityName`, relative to a named target; the error is what is logged. -/
def parseEntityName (source : Source) : Except Messages NamedTarget :=
  match reader.asString source with
  | some name => .ok (.create current.repository current.module name .target)
  | none =>
    let result :=
      match reader.asList source with
      | some list => parseList reader config current list
      | none => .error []
    match result with
    | .ok target => .ok target
    | .error messages =>
      .error (messages ++
        [lit "Syntactically invalid entity name: " ++ reader.toText source ++ lit "."])

end Parsing

end Jst.Expression
