import Jst.Data.Bytes
import Jst.Data.SortedMap
/-!
# Configurations of repositories

Repositories have a root, given by a description or by the name of another repository, and possibly
separate roots for targets, rules and expressions. JSON values that are only compared belong to a
type whose equality is that of the language the tools are written in; `{}` is its empty object.
Dictionaries are the lists of their items.
-/
namespace Jst.Tools

open SortedMap

/-- The pragma of a root. -/
structure Pragma (Value : Type) where
  absent : Option Bool
  toGit : Option Bool
  special : Option Value
deriving DecidableEq

/-- A pragma without entries. -/
def Pragma.empty {Value : Type} : Pragma Value := ⟨none, none, none⟩

/-- What a root is a description of, by its type; where things are fetched from is not looked at. -/
inductive Location (Value : Type) where
  /-- `"file"`. -/
  | file (path : Str)
  /-- `"archive"` and `"zip"`. -/
  | archive (zip : Bool) (content : Str) (subdir : Option Str) (fetch : Value)
  /-- `"git"`. -/
  | git (commit : Str) (subdir : Option Str) (fetch : Value)
  /-- `"computed"`. -/
  | computed (repo : Str) (target : Value) (config : Option Value)
  /-- `"tree structure"`. -/
  | treeStructure (repo : Str)
  | other (type : Str) (fields : Value)
deriving DecidableEq

/-- A root that is described. -/
structure Root (Value : Type) where
  location : Location Value
  pragma : Option (Pragma Value)
deriving DecidableEq

/-- The value of a root field. -/
inductive RootReference (Value : Type) where
  | named (name : Str)
  | root (root : Root Value)
deriving DecidableEq

/-- The names of root fields. -/
inductive RootName where
  | repository
  | targetRoot
  | ruleRoot
  | expressionRoot
deriving DecidableEq

/-- The description of a repository. -/
structure Repository (Value : Type) where
  /-- `"repository"`. -/
  repository : RootReference Value
  /-- `"target_root"`. -/
  targetRoot : Option (RootReference Value)
  /-- `"rule_root"`. -/
  ruleRoot : Option (RootReference Value)
  /-- `"expression_root"`. -/
  expressionRoot : Option (RootReference Value)
  /-- `"target_file_name"`. -/
  targetFileName : Option Str
  /-- `"rule_file_name"`. -/
  ruleFileName : Option Str
  /-- `"expression_file_name"`. -/
  expressionFileName : Option Str
  /-- `"bindings"`. -/
  bindings : Option (List (Str × Str))
deriving DecidableEq

variable {Value : Type}

/-- The value of a root field, if it is there. -/
def Repository.reference (desc : Repository Value) : RootName → Option (RootReference Value)
  | .repository => some desc.repository
  | .targetRoot => desc.targetRoot
  | .ruleRoot => desc.ruleRoot
  | .expressionRoot => desc.expressionRoot

/-- The repositories by their names. -/
abbrev Repositories (Value : Type) := List (Str × Repository Value)

/-- A configuration. -/
structure Configuration (Value : Type) where
  /-- `"repositories"`. -/
  repositories : Repositories Value
  nodup : (repositories.map (·.1)).Nodup
  /-- `"main"`. -/
  main : Option Str

/-- `get_root` — the description of a root, following names. -/
def getRoot (repos : Repositories Value) :
    Nat → Str → RootName → Option (Root Value) → Option (Root Value)
  | 0, _, _, _ => none
  | depth + 1, name, rootName, defaultRoot =>
    match find name repos with
    | none => none
    | some desc =>
      match desc.reference rootName with
      | none => defaultRoot
      | some (.named other) => getRoot repos depth other .repository none
      | some (.root root) => some root

end Jst.Tools
