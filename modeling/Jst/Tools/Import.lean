import Jst.Tools.Repositories
import Jst.Utils.Number
import Mathlib.Data.List.Sort
/-!
# Importing repositories from a foreign configuration

The repositories that are reachable are collected, some only as layers, named anew, and their
descriptions rewritten. How roots in the file system are rewritten depends on where the foreign
configuration comes from and is a parameter. The depth bounds recursions and searches that the
source does not bound.
-/
namespace Jst.Tools.Import

open SortedMap

/-- The kinds of roots. -/
inductive RootKind (Value : Type) where
  /-- `"file"`. -/
  | file (path : Option Str)
  /-- `"distdir"`. -/
  | distdir (repositories : List Str)
  /-- `"computed"` and `"tree structure"`. -/
  | computed (repo : Str) (fields : Value)
  | other (fields : Value)
deriving DecidableEq

/-- A root that is described. -/
structure Root (Value : Type) where
  kind : RootKind Value
  pragma : Option (Pragma Value)
deriving DecidableEq

/-- `"repository"`. -/
inductive RootReference (Value : Type) where
  | named (name : Str)
  | root (root : Root Value)
deriving DecidableEq

/-- The description of a repository; its layers are given by name. -/
structure Repository (Value : Type) where
  /-- `"repository"`. -/
  repository : RootReference Value
  /-- `"target_root"`. -/
  targetRoot : Option Str
  /-- `"rule_root"`. -/
  ruleRoot : Option Str
  /-- `"expression_root"`. -/
  expressionRoot : Option Str
  /-- `"target_file_name"`. -/
  targetFileName : Option Str
  /-- `"rule_file_name"`. -/
  ruleFileName : Option Str
  /-- `"expression_file_name"`. -/
  expressionFileName : Option Str
  /-- `"bindings"`. -/
  bindings : Option (List (Str × Str))
deriving DecidableEq

/-- The repositories by their names. -/
abbrev Repositories (Value : Type) := List (Str × Repository Value)

variable {Value : Type}

/-- The layers of a repository, `ALT_DIRS`. -/
def Repository.layers (desc : Repository Value) : List Str :=
  desc.targetRoot.toList ++ desc.ruleRoot.toList ++ desc.expressionRoot.toList

/-- The bindings of a repository. -/
def Repository.links (desc : Repository Value) : List (Str × Str) := desc.bindings.getD []

/-! ## What to import -/

/-- The repository of a computed root. -/
def RootKind.base : RootKind Value → Option Str
  | .computed repo _ => some repo
  | _ => none

def getBaseRepoIfComputed (repos : Repositories Value) : Nat → RootReference Value → Option (Option Str)
  | _, .root root => some root.kind.base
  | 0, .named _ => none
  | depth + 1, .named name =>
    match find name repos with
    | none => none
    | some desc => getBaseRepoIfComputed repos depth desc.repository

/-- `to_import` and `extra_imports`. -/
structure Reached where
  toImport : List Str
  extraImports : List Str

/-- `extra_imports.discard`. -/
def Reached.discard (name : Str) (reached : Reached) : Reached :=
  { reached with extraImports := reached.extraImports.filter (· ≠ name) }

/-- `extra_imports.add`. -/
def Reached.addExtra (name : Str) (reached : Reached) : Reached :=
  { reached with extraImports := name :: reached.extraImports.filter (· ≠ name) }

/-- Visit the repository of a computed root, which is imported fully. -/
def visitBase (visit : Reached → Str → Option Reached) (reached : Reached) :
    Option Str → Option Reached
  | none => some reached
  | some base => visit (reached.discard base) base

/-- The root in `visit`. -/
def visitRoot (known : List Str) (visit : Reached → Str → Option Reached) (reached : Reached) :
    RootReference Value → Option Reached
  | .named repo =>
    if repo ∉ known ∧ repo ∉ reached.toImport then visit (reached.addExtra repo) repo
    else some reached
  | .root root => visitBase visit reached root.kind.base

/-- One of the layers in `visit`. -/
def visitLayer (repos : Repositories Value) (known : List Str) (depth : Nat)
    (visit : Reached → Str → Option Reached) (reached : Reached) (extra : Str) : Option Reached := do
  let reached :=
    if extra ∉ known ∧ extra ∉ reached.toImport then reached.addExtra extra else reached
  match find extra repos with
  | none => some reached
  | some desc => visitBase visit reached (← getBaseRepoIfComputed repos depth desc.repository)

def visit (repos : Repositories Value) (known : List Str) : Nat → Reached → Str → Option Reached
  | 0, _, _ => none
  | depth + 1, reached, name =>
    if name ∈ known ∨ name ∈ reached.toImport then some reached
    else do
      let desc ← find name repos
      let reached ←
        if name ∈ reached.extraImports then some reached
        else
          (desc.links.map (·.2)).foldlM
            (fun reached other => visit repos known depth (reached.discard other) other)
            { reached with toImport := name :: reached.toImport }
      let reached ← visitRoot known (visit repos known depth) reached desc.repository
      desc.layers.foldlM (visitLayer repos known depth (visit repos known depth)) reached

def reposToImport (repos : Repositories Value) (depth : Nat) (entry : Str) (known : List Str) :
    Option Reached :=
  visit repos known depth ⟨[], []⟩ entry

/-! ## Names -/

/-- The candidates for a name. -/
def candidate (baseName name : Str) (count : Nat) : Str :=
  let base := baseName ++ lit "/" ++ name
  if count = 0 then base else base ++ lit " (" ++ Number.decimal count ++ lit ")"

/-- `find_name`, from some count on. -/
def findName (taken : Str → Bool) (baseName name : Str) : Nat → Nat → Option Str
  | 0, _ => none
  | depth + 1, count =>
    if taken (candidate baseName name count) then findName taken baseName name depth (count + 1)
    else some (candidate baseName name count)

/-- The loop over the names in `name_imports`. -/
def assignNames (existing : List Str) (baseName : Str) (depth : Nat) :
    List Str → List (Str × Str) → Option (List (Str × Str))
  | [], assign => some assign
  | repo :: rest, assign => do
    let name ← findName (fun name => name ∈ existing ∨ name ∈ assign.map (·.1)) baseName repo depth 0
    assignNames existing baseName depth rest (assign ++ [(repo, name)])

def nameImports (toImport extraImports existing : List Str) (baseName main : Str) (depth : Nat) :
    Option (List (Str × Str)) :=
  if baseName ∉ existing then
    assignNames existing baseName depth ((toImport ++ extraImports).filter (· ≠ main))
      [(main, baseName)]
  else assignNames existing baseName depth (toImport ++ extraImports) []

/-! ## Rewriting -/

/-- What descriptions are rewritten with. -/
structure Remote (Value : Type) where
  /-- `rewrite_file_repo` for the remote type. -/
  rewriteFileRepo : Root Value → Option (Root Value)
  no_references : ∀ root root', rewriteFileRepo root = some root' →
    root'.kind.base = none ∧ ∀ repositories, root'.kind ≠ .distdir repositories
  importPragma : Pragma Value
  pragmaSpecial : Option Value

def updatePragmas [DecidableEq Value] (remote : Remote Value) (root : Root Value) : Root Value :=
  let existing := root.pragma.getD .empty
  let absent := existing.absent.getD false || remote.importPragma.absent.getD false
  let toGit := existing.toGit.getD false || remote.importPragma.toGit.getD false
  let isFile := match root.kind with
    | .file _ => true
    | _ => false
  let existing : Pragma Value :=
    ⟨if absent then some true else existing.absent,
      if isFile && toGit then some true else existing.toGit, match remote.pragmaSpecial with
      | none => existing.special
      | some special => some special⟩
  if existing = .empty then root else { root with pragma := some existing }

/-- The root in `rewrite_repo`. -/
def rewriteRoot [DecidableEq Value] (remote : Remote Value) (assign : List (Str × Str)) :
    RootReference Value → Option (RootReference Value)
  | .named repo => do return .named (← find repo assign)
  | .root root => do
    let root ← match root.kind with
      | .file _ => remote.rewriteFileRepo root
      | .distdir repositories => do
        let repositories ← repositories.mapM fun repo => find repo assign
        some { root with kind := .distdir repositories }
      | .computed repo fields => do
        let repo ← find repo assign
        some { root with kind := .computed repo fields }
      | .other _ => some root
    return .root (updatePragmas remote root)

/-- One binding is rewritten. -/
def rewriteLink (assign : List (Str × Str)) (item : Str × Str) : Option (Str × Str) := do
  return (item.1, ← find item.2 assign)

def rewriteRepo [DecidableEq Value] (remote : Remote Value) (assign : List (Str × Str))
    (asLayer : Bool) (spec : Repository Value) : Option (Repository Value) := do
  let repository ← rewriteRoot remote assign spec.repository
  if asLayer then some ⟨repository, none, none, none, none, none, none, none⟩
  else
    let targetRoot ← spec.targetRoot.mapM fun name => find name assign
    let ruleRoot ← spec.ruleRoot.mapM fun name => find name assign
    let expressionRoot ← spec.expressionRoot.mapM fun name => find name assign
    let bindings ← spec.links.mapM (rewriteLink assign)
    return {
      repository, targetRoot, ruleRoot, expressionRoot
      targetFileName := spec.targetFileName
      ruleFileName := spec.ruleFileName
      expressionFileName := spec.expressionFileName
      bindings := if bindings.isEmpty then none else some bindings }

/-- An item of a dictionary is set. -/
def setItem (name : Str) (desc : Repository Value) : Repositories Value → Repositories Value
  | [] => [(name, desc)]
  | (other, old) :: rest =>
    if other = name then (name, desc) :: rest else (other, old) :: setItem name desc rest

/-- The loops over the imports. -/
def addImports [DecidableEq Value] (remote : Remote Value) (repos : Repositories Value)
    (assign total : List (Str × Str)) (asLayer : Bool) :
    List Str → Repositories Value → Option (Repositories Value)
  | [], newRepos => some newRepos
  | repo :: rest, newRepos => do
    let spec ← find repo repos
    let name ← find repo assign
    let desc ← rewriteRepo remote total asLayer spec
    addImports remote repos assign total asLayer rest (setItem name desc newRepos)

/-- What an import leads to: what is reported, and the new repositories. -/
structure Imported (Value : Type) where
  orderedImports : List Str
  extraImports : List Str
  assign : List (Str × Str)
  newRepos : Repositories Value

/-- `handle_import`, after the input is parsed. -/
def handleImport [DecidableEq Value] (remote : Remote Value) (coreRepos repos : Repositories Value)
    (foreignName importName : Str) (importMap : List (Str × Str)) (depth : Nat) :
    Option (Imported Value) := do
  let reached ← reposToImport repos depth foreignName (importMap.map (·.1))
  let extraRepos := (reached.toImport.filter (· ≠ foreignName)).insertionSort (· ≤ ·)
  let orderedImports := foreignName :: extraRepos
  let extraImports := reached.extraImports.insertionSort (· ≤ ·)
  let assign ← nameImports orderedImports extraImports (coreRepos.map (·.1)) importName foreignName
    depth
  let total := importMap ++ assign
  let newRepos ← addImports remote repos assign total false orderedImports coreRepos
  let newRepos ← addImports remote repos assign total true extraImports newRepos
  return ⟨orderedImports, extraImports, assign, newRepos⟩

end Jst.Tools.Import
