import Jst.Data.Json
/-!
# Abbreviated JSON

A value is cut at a depth, where `*` stands for what is left out. The abbreviation of a value that
is too long is the last one of the cuts, each deeper than the one before, that fits.
-/
namespace Jst.Json

variable {Number : Type}

/-- The loop over an array, with a comma behind all items but the last one. -/
def truncateItems (truncate : Json Number → Option Str) : List (Json Number) → Option Str
  | [] => some []
  | item :: rest => do
    let shown ← truncate item
    let more ← truncateItems truncate rest
    some (shown ++ ((if rest.isEmpty then [] else [44]) ++ more))

/-- The loop over an object. -/
def truncateFields (truncate : Json Number → Option Str) : List (Str × Json Number) → Option Str
  | [] => some []
  | (key, value) :: rest => do
    let name ← JsonString.dump key
    let shown ← truncate value
    let more ← truncateFields truncate rest
    some (name ++ 58 :: (shown ++ ((if rest.isEmpty then [] else [44]) ++ more)))

variable (text : Number → Option Str)

/-- `TruncateJson`, which throws if it writes a string that is not UTF-8. -/
def truncateJson : (depth : Nat) → Json Number → Option Str
  | 0, _ => some (lit "*")
  | depth + 1, object fields =>
    (truncateFields (truncateJson depth) fields).map fun inside => 123 :: inside ++ [125]
  | depth + 1, array items =>
    (truncateItems (truncateJson depth) items).map fun inside => 91 :: inside ++ [93]
  | _ + 1, json => dump text json

/-- The loop of `AbbreviateJson`, which is cut off when the turns are used up. -/
def abbreviateFrom (truncate : Nat → Option Str) (len : Nat) :
    (turns depth : Nat) → (old new : Str) → Option (Option Str)
  | 0, _, old, new => if new.length ≤ len then none else some (some old)
  | turns + 1, depth, old, new =>
    if new.length ≤ len then
      match truncate (depth + 1) with
      | none => some none
      | some next => abbreviateFrom truncate len turns (depth + 1) new next
    else some (some old)

/-- `AbbreviateJson`. -/
def abbreviateJson (turns : Nat) (json : Json Number) (len : Nat) : Option (Option Str) :=
  match dump text json with
  | none => some none
  | some jsonString =>
    if jsonString.length ≤ len then some (some jsonString)
    else
      match truncateJson text 1 json with
      | none => some none
      | some oldAbbrev =>
        abbreviateFrom (truncateJson text · json) len turns 1 oldAbbrev oldAbbrev

end Jst.Json
