import Jst.Common.ArtifactDescription
/-!
# Action descriptions

An action with its outputs and its inputs, as the analysis describes it. Ordered and unordered maps
are lists of entries in the order of their keys.
-/
namespace Jst

open Number

/-- `Action` that runs a command; tree actions are left out. -/
structure Action where
  id : Str
  command : List Str
  label : Str
  cwd : Str
  env : List (Str × Str)
  mayFail : Option Str
  noCache : Bool
  timeoutScale : Double
  executionProperties : List (Str × Str)
deriving DecidableEq

structure ActionDescription where
  outputFiles : List Str
  outputDirs : List Str
  action : Action
  inputs : List (Str × ArtifactDescription)
deriving DecidableEq

/-- An action with another label. -/
def ActionDescription.withLabel (description : ActionDescription) (label : Str) : ActionDescription :=
  { description with action := { description.action with label := label } }

end Jst
