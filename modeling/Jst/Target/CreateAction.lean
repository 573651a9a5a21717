import Jst.Common.ActionDescription
import Jst.Expression.Expression
/-!
# Making actions

An action is identified by the hash of everything that influences its execution. The hashes of lists
and expressions are written one behind the other, with a flag and the timeout scale in between.
-/
namespace Jst.Target

open Number SortedMap Expression

/-- The entries of a map of which all values are strings. -/
def stringEntries : List (Str × Expr) → Option (List (Str × Str))
  | [] => some []
  | (key, .string value) :: rest => (stringEntries rest).map ((key, value) :: ·)
  | _ => none

/-- The entries of a map of which all values are artifacts. -/
def artifactEntries : List (Str × Expr) → Option (List (Str × ArtifactDescription))
  | [] => some []
  | (key, .artifact value) :: rest => (artifactEntries rest).map ((key, value) :: ·)
  | _ => none

/-- `Expression::Map`, which throws if the expression is no map. -/
def mapEntries : Expr → Option (List (Str × Expr))
  | .map fields => some fields
  | _ => none

section Identifier

-- how JSON writes doubles, how `{:+24a}` formats them, and the hash function
variable (doubleText scaleText : Double → Str) (sha : Str → Str)

def hashVector (vec : List Str) : Str := sha (vec.flatMap sha)

/-- What `createAction` hashes behind `ACTION:`. -/
def identified (outputFiles outputDirs command : List Str) (cwd envHash : Str) (mayFail : Option Str)
    (noCache : Bool) (timeoutScale : Double) (propertiesHash inputsHash : Str) : Str :=
  hashVector sha outputFiles ++ (hashVector sha outputDirs ++ (hashVector sha command ++
    (hashVector sha [cwd] ++ (envHash ++ (hashVector sha mayFail.toList ++
      ((if noCache then lit "N" else lit "Y") ++ (scaleText timeoutScale ++
        (propertiesHash ++ inputsHash))))))))

/-- `BuildMaps::Target::Utils::createAction`; there is no action if one of the expressions cannot be
hashed or is no map of strings, or of artifacts for the inputs. -/
def createAction (outputFiles outputDirs command : List Str) (label cwd : Str) (env : Expr)
    (mayFail : Option Str) (noCache : Bool) (timeoutScale : Double)
    (executionPropertiesExp inputsExp : Expr) : Option ActionDescription := do
  let envHash ← env.toHash doubleText sha
  let propertiesHash ← executionPropertiesExp.toHash doubleText sha
  let inputsHash ← inputsExp.toHash doubleText sha
  let actionId := toHexString (sha (lit "ACTION:" ++
    identified scaleText sha outputFiles outputDirs command cwd envHash mayFail noCache timeoutScale
      propertiesHash inputsHash))
  let envVars ← stringEntries (← mapEntries env)
  let executionProperties ← stringEntries (← mapEntries executionPropertiesExp)
  let inputs ← artifactEntries (← mapEntries inputsExp)
  some
    { outputFiles := outputFiles
      outputDirs := outputDirs
      action :=
        { id := actionId
          command := command
          label := label
          cwd := cwd
          env := emplaceAll envVars []
          mayFail := mayFail
          noCache := noCache
          timeoutScale := timeoutScale
          executionProperties := emplaceAll executionProperties [] }
      inputs := emplaceAll inputs [] }

end Identifier

end Jst.Target
