import Jst.Lang.NativeParser
import Jst.Utils.Path
/-!
# Parsing with imports

The parser of a file reads each imported file and runs a parser of its own on it, which knows the
files on the way. A file on its own way is a cycle.
-/
namespace Jst.Lang

/-- `FileLocation::ToString`; a repository name that is no UTF-8 terminates the program. -/
def FileLocation.toString (location : FileLocation) : Option Str :=
  let path := location.path.foldl Path.append []
  if location.repo = [] then some path
  else do
    let repo ← Ref.quoteRefSegment location.repo .repo false
    some (lit "[" ++ repo ++ lit "] " ++ path)

structure FileData where
  location : FileLocation
  content : Str

namespace NativeParser

/-- `FileData::reader_t` — the file that an import in a file means. -/
abbrev Reader := FileLocation → Str → Option FileData

/-- The number of nested calls that a parser of so many tokens may need. -/
def depthFor (tokens : Nat) : Nat := 3 * tokens + 2

/-- The part of `NativeParser::ParseData` behind the check of the import chain. -/
def parseTokens (filename : Str) (load : Str → Except ParseError Node) (tokens : List Token) :
    Except ParseError Node := do
  let (expr, _) ← parse ⟨filename, load⟩ (depthFor tokens.length) maxPriority tokens
  .ok expr

/-- `NativeParser::ParseData`, with the number of files that may still be nested. -/
def parseData (reader : Reader) : (nesting : Nat) → (chain : List FileLocation) → FileData →
    Except ParseError Node
  | 0, _, _ => .error .depth
  | nesting + 1, chain, fileData =>
    match fileData.location.toString with
    | none => .error .terminate
    | some filename =>
      match Lexer.tokenize filename fileData.content with
      | .error text => .error (.message text)
      | .ok tokens =>
        if fileData.location ∈ chain then
          .error (.cycle (chain.dropWhile (· ≠ fileData.location)))
        else
          parseTokens filename (fun file =>
            match reader fileData.location file with
            | some imported => parseData reader nesting (chain ++ [fileData.location]) imported
            | none => .error (.message (lit "Parser error: Failed to import file"))) tokens

end NativeParser

end Jst.Lang
