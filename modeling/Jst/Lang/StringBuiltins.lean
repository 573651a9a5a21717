import Jst.Utils.Path
import Jst.Lang.Parameters
/-!
# Built-in functions on strings

`BuiltIn::join`, `join_cmd`, `change_ending`, `escape_chars` and `basename`.
-/
namespace Jst.Lang.BuiltIn

/-- The texts of a list of string literals; nothing if some item is not a literal. An item before
that which cannot be a string is an error. -/
def stringItems (builtin kind : String) : List Node → Except Str (Option (List Str))
  | [] => .ok (some [])
  | item :: items =>
    if item.evalType ∉ [.any, .string] then
      .error (lit builtin ++ lit ": List may not contain " ++ lit kind ++ lit " of type " ++
        item.evalType.toString)
    else
      match item with
      | .string text => do return (← stringItems builtin kind items).map (text :: ·)
      | _ => .ok none

/-- Append the texts to what there is; a separator goes in front of a text if there is something
already. -/
def joinTexts (sep : Str) (texts : List Str) : Str :=
  texts.foldl (fun out text => (if out.isEmpty then out else out ++ sep) ++ text) []

/-- The static branch of `join`. -/
def joinStatic (items : Node) (separator : Option Node) : Except Str (Option Node) :=
  match items, separator with
  | .list items, none => do
    return (← stringItems "join" "items" items).map fun texts => .string (joinTexts [] texts)
  | .list items, some (.string sep) => do
    return (← stringItems "join" "items" items).map fun texts => .string (joinTexts sep texts)
  | _, _ => .ok none

/-- The parameters that `join` expects. -/
def joinParameters : List ExpectedParameter :=
  [⟨"items", [.any, .list], true⟩, ⟨"sep", [.any, .string], false⟩]

def join (args : Params) : Except Str Branches :=
  withParameters "join" joinParameters args fun named => do
    let items ← retrieve "join" named "items"
    let separator := lookupParam (lit "sep") named
    return {
      static := joinStatic items separator
      fallback := runtimeCall "join" (("$1", items) :: optionalArg "separator" separator) .string }

/-- `ShellQuote`, the replacement of the single quotes. -/
def replaceQuotes : Str → Str
  | [] => []
  | char :: arg => if char = 39 then lit "'\\''" ++ replaceQuotes arg else char :: replaceQuotes arg

def shellQuote (arg : Str) : Str := lit "'" ++ replaceQuotes arg ++ lit "'"

/-- The static branch of `join_cmd`. -/
def joinCmdStatic : Node → Except Str (Option Node)
  | .list args => do
    return (← stringItems "join_cmd" "args" args).map fun texts =>
      .string (joinTexts (lit " ") (texts.map shellQuote))
  | _ => .ok none

def joinCmd (args : Params) : Except Str Branches :=
  withParameters "join_cmd" [⟨"args", [.any, .list], true⟩] args fun named => do
    let argsNode ← retrieve "join_cmd" named "args"
    return {
      static := joinCmdStatic argsNode
      fallback := runtimeCall "join_cmd" [("$1", argsNode)] .string }

/-- The static branch of `change_ending`. -/
def changeEndingStatic : Node → Node → Option Node
  | .string path, .string ending =>
    some (.string (Path.append (Path.parentPath path) (Path.stem path) ++ ending))
  | _, _ => none

def changeEnding (args : Params) : Except Str Branches :=
  withParameters "change_ending"
    [⟨"path", [.any, .string], true⟩, ⟨"ending", [.any, .string], false⟩] args fun named => do
      let path ← retrieve "change_ending" named "path"
      let ending := lookupParam (lit "ending") named
      return {
        static := .ok (changeEndingStatic path (ending.getD (.string [])))
        fallback := runtimeCall "change_ending" (("$1", path) :: optionalArg "ending" ending)
          .string }

/-- The static branch of `escape_chars`. -/
def escapeCharsStatic : Node → Node → Node → Option Node
  | .string str, .string chars, .string charPrefix =>
    some (.string (str.flatMap fun char =>
      (if chars.contains char then charPrefix else []) ++ [char]))
  | _, _, _ => none

def escapeChars (args : Params) : Except Str Branches :=
  withParameters "escape_chars" [⟨"str", [.any, .string], true⟩, ⟨"chars", [.any, .string], false⟩,
    ⟨"prefix", [.any, .string], false⟩] args fun named => do
      let str ← retrieve "escape_chars" named "str"
      let chars := lookupParam (lit "chars") named
      let charPrefix := lookupParam (lit "prefix") named
      return {
        static := .ok (escapeCharsStatic str (chars.getD (.string []))
          (charPrefix.getD (.string (lit "\\"))))
        fallback := runtimeCall "escape_chars" (("$1", str) :: (optionalArg "chars" chars ++
          optionalArg "escape_prefix" charPrefix)) .string }

/-- The static branch of `basename`. -/
def basenameStatic : Node → Option Node
  | .string path => some (.string (Path.filename path))
  | _ => none

def basename (args : Params) : Except Str Branches :=
  withParameters "basename" [⟨"path", [.any, .string], true⟩] args fun named => do
    let path ← retrieve "basename" named "path"
    return {
      static := .ok (basenameStatic path)
      fallback := runtimeCall "basename" [("$1", path)] .string }

end Jst.Lang.BuiltIn
