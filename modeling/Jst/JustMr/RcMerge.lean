import Jst.Expression.Configuration
/-!
# Merging of rc files

Settings are read from several files, of which the later ones win. Some fields are lists that are
concatenated, and some are maps that are merged entry by entry. The files are not checked before, so
a field may have a value of any type.
-/
namespace Jst.JustMr

open SortedMap Expression

/-- `kAccumulating`. -/
def accumulating : List Str := [lit "distdirs"]

/-- `kLocalMerge`. -/
def localMerge : List Str := [lit "jst args", lit "jst files", lit "invocation log"]

/-- The `Configuration` of an rc file. -/
@[ext]
structure RcConfig where
  items : Configuration
  ordered : Ascending items

namespace RcConfig

/-- `Configuration{}`. -/
def empty : RcConfig := ⟨[], .nil⟩

def update (config : RcConfig) (map : Configuration) : RcConfig where
  items := config.items.updateAll map
  ordered := union_ascending _ config.ordered

/-- The list of a field; other values count as the empty one. -/
def list (config : RcConfig) (field : Str) : List Value :=
  (config.items.get field).asList.getD []

/-- The map of a field; other values count as the empty one. -/
def map (config : RcConfig) (field : Str) : Configuration :=
  (config.items.get field).asMap.getD []

end RcConfig

/-- `MergeMRRC`, one accumulating field. -/
def joinLists (base delta result : RcConfig) (field : Str) : RcConfig :=
  result.update [(field, .list (delta.list field ++ base.list field))]

/-- `MergeMRRC`, one locally merging field. -/
def joinMaps (base delta result : RcConfig) (field : Str) : RcConfig :=
  let joined := (Configuration.updateAll [] (base.map field)).updateAll (delta.map field)
  result.update [(field, .map joined)]

def mergeMRRC (base delta : RcConfig) : RcConfig :=
  let result := base.update delta.items
  let result := accumulating.foldl (joinLists base delta) result
  localMerge.foldl (joinMaps base delta) result

/-- `ReadJustMRRC` — the extra files are merged into the configuration in order. -/
def mergeExtraFiles (config : RcConfig) (extra : List RcConfig) : RcConfig :=
  extra.foldl mergeMRRC config

end Jst.JustMr
