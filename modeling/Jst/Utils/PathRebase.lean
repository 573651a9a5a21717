import Jst.Utils.Path
/-!
# Paths relative to a working directory

The helpers of `path_rebase.hpp`, by which the outputs of an action are named when it is executed.
-/
namespace Jst.Path

def rebasePathStringRelativeTo (base path : Str) : Str := lexicallyRelative path base

def rebasePathStringsRelativeTo (base : Str) (paths : List Str) : List Str :=
  paths.map (rebasePathStringRelativeTo base)

end Jst.Path
