import Jst.Data.Worklist
import Jst.Expression.Configuration
/-!
# Repositories to set up

A repository of a multi-repository configuration is a map with its root, its bindings and its
layers. The root may be the name of another repository, whose root is meant then. Computed roots
refer to a repository as well. The text of a value in messages is a parameter, and what is only
logged is left out.
-/
namespace Jst.JustMr

open SortedMap Expression Worklist

/-- The descriptions of repositories, by name. -/
abbrev Repos := List (Str × Value)

def typeString : Value → Str
  | .none => lit "none"
  | .bool _ => lit "bool"
  | .number _ => lit "number"
  | .string _ => lit "string"
  | .entity (.name _) => lit "name"
  | .entity (.artifact _) => lit "artifact"
  | .entity (.result _ _) => lit "result"
  | .entity (.node _ _) => lit "node"
  | .list _ => lit "list"
  | .map _ => lit "map"

/-- The exception that `Expression::Cast` throws. -/
def typeError (expected : Str) (value : Value) : Str :=
  lit "Expression is not of type '" ++ expected ++ lit "' but '" ++ typeString value ++ lit "'."

/-- `Expression::Get`, where a missing entry is null; it throws unless the value is a map. -/
def getField (value : Value) (key : String) : Except Str Value :=
  match value with
  | .map fields => .ok (Value.get fields key .none)
  | other => .error (typeError (lit "map") other)

/-! ## Precomputed roots -/

structure ComputedRoot where
  repository : Str
  targetModule : Str
  targetName : Str
  config : Value
  absent : Bool

structure TreeStructureRoot where
  repository : Str
  absent : Bool

inductive PrecomputedRoot where
  | computed (root : ComputedRoot)
  | treeStructure (root : TreeStructureRoot)

/-- `PrecomputedRoot::GetReferencedRepository`. -/
def PrecomputedRoot.referencedRepository : PrecomputedRoot → Str
  | computed root => root.repository
  | treeStructure root => root.repository

section Parsing

variable (toText : Value → Str)

def parseAbsent (repository : List (Str × Value)) : Except Str Bool :=
  match Value.get repository "pragma" .none with
  | .none => .ok false
  | .map pragma =>
    match Value.get pragma "absent" .none with
    | .none => .ok false
    | .bool isAbsent => .ok isAbsent
    | other => .error (lit "Expected pragma \"absent\" to be boolean, but found " ++ toText other)
  | other => .error (lit "Key \"pragma\", if given, should be a map, but found " ++ toText other)

/-- `ParseComputedRoot`, the names of module and target. -/
def parseTarget (repository : List (Str × Value)) : Except Str (Str × Str) :=
  match Value.get repository "target" .none with
  | .none => .error (lit "Mandatory key \"target\" is missing")
  | .list [.string targetModule, .string targetName] => .ok (targetModule, targetName)
  | .list [targetModule, targetName] =>
    .error (lit "Unsupported format for key \"target\":\n" ++
      toText (.list [targetModule, targetName]))
  | other => .error (lit "Unsupported value for key \"target\":\n" ++ toText other)

/-- `ParseComputedRoot`; the name of the target is set to that of the module. -/
def parseComputedRoot (repository : List (Str × Value)) : Except Str ComputedRoot :=
  match Value.get repository "repo" .none with
  | .none => .error (lit "Mandatory key \"repo\" is missing")
  | .string repo => do
    let (targetModule, _) ← parseTarget toText repository
    let config ←
      match Value.get repository "config" .none with
      | .none => .ok (.map [])
      | .map config => .ok (.map config)
      | other => .error (lit "Unsupported value for key \"config\":\n" ++ toText other)
    let absent ← parseAbsent toText repository
    .ok
      { repository := repo
        targetModule := targetModule
        targetName := targetModule
        config := config
        absent := absent }
  | other => .error (lit "Unsupported value for key \"repo\":\n" ++ toText other)

/-- `ParseTreeStructureRoot` — throws if the repository is not a string. -/
def parseTreeStructureRoot (repository : List (Str × Value)) :
    Except Str (Except Str TreeStructureRoot) :=
  match Value.get repository "repo" .none with
  | .none => .ok (.error (lit "Mandatory key \"repo\" is missing"))
  | repo =>
    match parseAbsent toText repository with
    | .error error => .ok (.error error)
    | .ok absent =>
      match repo with
      | .string repo => .ok (.ok { repository := repo, absent := absent })
      | other => .error (typeError (lit "string") other)

/-- `ParsePrecomputedRoot`; the outer error is an exception. -/
def parsePrecomputedRoot (repository : Value) : Except Str (Except Str PrecomputedRoot) :=
  match repository with
  | .map fields =>
    match Value.get fields "type" .none with
    | .none => .ok (.error (lit "Mandatory key \"type\" is missing"))
    | .string marker =>
      if marker = lit "computed" then
        .ok ((parseComputedRoot toText fields).map .computed)
      else if marker = lit "tree structure" then
        (parseTreeStructureRoot toText fields).map fun root => root.map .treeStructure
      else .ok (.error (lit "Unknown type " ++ marker ++ lit " of precomputed repository"))
    | other => .ok (.error (lit "Unsupported value for key \"type\":\n" ++ toText other))
  | _ => .ok (.error (lit "Repository has an incorrect format"))

/-! ## Reachable repositories -/

variable (repos : Repos)

/-- `repos->Get` — the description of a repository, or null. -/
def description (name : Str) : Value := (find name repos).getD .none

/-- `GetTargetRepoIfPrecomputed`, once a root is reached that is not a name. -/
def targetRepo (root : Value) : Except (Stop Str) (Option Str) :=
  match parsePrecomputedRoot toText root with
  | .error error => .error (.thrown error)
  | .ok (.error _) => .ok none
  | .ok (.ok precomputed) => .ok (some precomputed.referencedRepository)

/-- `GetTargetRepoIfPrecomputed`, the loop. -/
def followRoots : Nat → Value → Except (Stop Str) (Option Str)
  | fuel, .string name =>
    match description repos name with
    | .map repo =>
      match fuel with
      | 0 => .error .outOfFuel
      | fuel + 1 => followRoots fuel (Value.get repo "repository" .none)
    | _ => .ok none
  | _, root => targetRepo toText root

def getTargetRepoIfPrecomputed (fuel : Nat) (name : Str) : Except (Stop Str) (Option Str) :=
  followRoots toText repos fuel (.string name)

/-- `kAltDirs`. -/
def altDirs : List String := ["target_root", "rule_root", "expression_root"]

/-- `ReachableRepositories` — the names to which a repository is bound, in the order of the map. -/
def boundNames (bindings : Value) : List Str :=
  match bindings with
  | .map bindings => bindings.filterMap fun entry => entry.2.asString
  | _ => []

/-- `ReachableRepositories` — the layers of a repository. -/
def layers (desc : Value) : Except Str (List Str) := do
  let values ← altDirs.mapM fun layer => getField desc layer
  return values.filterMap Value.asString

/-- Throw what `Expression` throws. -/
def rethrow {Result : Type} : Except Str Result → Except (Stop Str) Result
  | .error error => .error (.thrown error)
  | .ok result => .ok result

/-- `ReachableRepositories`, one repository: what is to be processed, and the layers to set up. -/
def processRepo (fuel : Nat) (repoName : Str) : Except (Stop Str) (List Str × List Str) :=
  match description repos repoName with
  | .none => .ok ([], [])
  | desc => do
    let precomputed ← getTargetRepoIfPrecomputed toText repos fuel repoName
    let bindings ← rethrow (getField desc "bindings")
    let layerNames ← rethrow (layers desc)
    let layerTargets ← layerNames.mapM (getTargetRepoIfPrecomputed toText repos fuel)
    .ok (precomputed.toList ++ boundNames bindings ++ layerTargets.reduceOption, layerNames)

structure SetupRepos where
  toSetup : List Str
  toInclude : List Str

def reachableRepositories (fuel : Nat) (main : Str) : Except (Stop Str) SetupRepos :=
  match run (processRepo toText repos) fuel [main] [] [] with
  | .error stop => .error stop
  | .ok (included, layerNames) =>
    .ok { toSetup := (layerNames ++ included).dedup, toInclude := included }

/-! ## Resolving references -/

/-- The names that have not been seen. -/
def unseen (seen : List Str) : List Str :=
  (repos.map fst).filter fun name => !decide (name ∈ seen)

theorem unseen_lt {name : Str} {seen : List Str} (outside : name ∉ seen)
    (listed : name ∈ repos.map fst) :
    (unseen repos (name :: seen)).length < (unseen repos seen).length := by
  have shorter : unseen repos (name :: seen) =
      (unseen repos seen).filter fun other => !decide (other = name) := by
    unfold unseen
    rw [List.filter_filter]
    exact List.filter_congr fun other _ => by simp
  rw [shorter]
  refine List.length_filter_lt_length_iff_exists.mpr ⟨name, ?_, by simp⟩
  exact mem_filter.mpr ⟨listed, by simpa using outside⟩

/-- `ResolveRepo`, the recursive part; the error is an exception. -/
def resolveRepoFrom (repoDesc : Value) (seen : List Str) : Except Str (Option Value) :=
  match repoDesc with
  | .string descStr =>
    if descStr ∈ seen then .ok none
    else
      match _found : find descStr repos with
      | none => .error (lit "Map does not contain key '" ++ descStr ++ lit "'.")
      | some (.map newRepoDesc) =>
        match find (lit "repository") newRepoDesc with
        | none => .ok none
        | some root => resolveRepoFrom root (descStr :: seen)
      | some _ => .ok none
  | other => .ok (some other)
termination_by (unseen repos seen).length
decreasing_by
  exact unseen_lt repos ‹_› (mem_keys.mpr (by rw [_found]; rfl))

def resolveRepo (repoDesc : Value) : Option Value :=
  match resolveRepoFrom repos repoDesc [] with
  | .error _ => none
  | .ok result => result

end Parsing

end Jst.JustMr
