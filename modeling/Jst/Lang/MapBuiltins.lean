import Jst.Lang.Parameters
/-!
# Built-in functions that make maps

`BuiltIn::zip_map`.
-/
namespace Jst.Lang.BuiltIn

/-- The fields of a map from literal lists; a key that cannot be a string is an error. -/
def zipFields : List Node → List Node → Except Str (List (Node × Node))
  | key :: keys, value :: values =>
    if key.evalType ∉ [.any, .string] then
      .error (lit "zip_map: List 'range_key' may not contain items of type " ++
        key.evalType.toString)
    else do return (key, value) :: (← zipFields keys values)
  | _, _ => .ok []

/-- The static branch of `zip_map`. -/
def zipMapStatic : Node → Node → Except Str (Option Node)
  | .list keys, .list values => do return some (.map (← zipFields keys values))
  | .list [], _ | _, .list [] => .ok (some (.map []))
  | _, _ => .ok none

def zipMap (args : Params) : Except Str Branches :=
  withParameters "zip_map" [⟨"range_key", [.any, .list], true⟩, ⟨"range_val", [.any, .list], true⟩]
    args fun named => do
      let rangeKey ← retrieve "zip_map" named "range_key"
      let rangeVal ← retrieve "zip_map" named "range_val"
      return {
        static := zipMapStatic rangeKey rangeVal
        fallback := runtimeCall "zip_map" [("range_key", rangeKey), ("range_val", rangeVal)] .list }

end Jst.Lang.BuiltIn
