import Jst.Data.JsonString
import Jst.Lang.Ast
import Jst.Utils.Path
/-!
# Reference strings

A reference string names a target: `:target` in the same module, `./module:target` and
`//module:target` in another module, `repo//module:target` in another repository. A segment that a
separator could end too early, or that is no JSON string as it stands, is written as a JSON string.
Where the code keeps a position in the string, the definitions pass on the text from there.
-/
namespace Jst.Lang.Ref

open JsonString (quote backslash)

/-- `kSepToken`. -/
def sepToken : Str := lit ":"

/-- `kAbsToken`. -/
def absToken : Str := lit "//"

/-- `kRelToken`. -/
def relToken : Str := lit "./"

inductive RefSegment where
  | repo | module | target
deriving DecidableEq

inductive RefContext where
  | target | file | cli
deriving DecidableEq

/-- `RefDecodeError`. -/
def decodeError (text error : Str) : Str :=
  lit "Decoding reference '" ++ text ++ lit "' failed with:\n  " ++ error

/-- `FindNext` — the text in front of the first occurrence of a token, and the text from there. -/
def findNext (token : Str) : Str → Option (Str × Str)
  | [] => if token = [] then some ([], []) else none
  | byte :: rest =>
    if token <+: byte :: rest then some ([], byte :: rest)
    else (findNext token rest).map fun (front, back) => (byte :: front, back)

/-- The search for the end of a quoted segment: a quote that no backslash stands in front of. -/
def findQuote : (escaped : Bool) → Str → Option (Str × Str)
  | _, [] => none
  | escaped, byte :: rest =>
    if byte = quote ∧ escaped = false then some ([], rest)
    else (findQuote (byte = backslash) rest).map fun (front, back) => (byte :: front, back)

/-- `ParseSegment` — the name of the segment at the front of a text, and the text behind it. -/
def parseSegment (whole text : Str) (stop : Option Str) : Except Str (Str × Str) :=
  if text.head? = some quote then
    match findQuote false text.tail with
    | none => .error (decodeError whole (lit "Unterminated quote."))
    | some (quoted, rest) =>
      match JsonString.unescape quoted with
      | none => .error (decodeError whole (lit "Invalid JSON string."))
      | some name => .ok (name, rest)
  else
    match stop.bind (findNext · text) with
    | some found => .ok found
    | none => .ok (text, [])

def normModule (module : Str) : Str :=
  let normal := Path.toNormalPath module
  if normal = Path.here then [] else normal

/-- `ParseTarget` — no target is the default one. -/
def parseTarget (whole text : Str) (allowMissing : Bool) : Except Str (Option Str) :=
  if text ≠ [] then (parseSegment whole text none).map fun (name, _) => some name
  else if allowMissing then .ok none
  else .error (decodeError whole (lit "Missing target name after ':'."))

def parseAbs (whole text : Str) (allowMissingTarget : Bool) : Except Str (Str × Option Str) := do
  let (name, rest) ← parseSegment whole text (some sepToken)
  let module := normModule name
  if sepToken <+: rest then
    let target ← parseTarget whole (rest.drop sepToken.length) allowMissingTarget
    .ok (module, target)
  else if name = [] then
    .error (decodeError whole
      (if allowMissingTarget then
        lit "Empty module without target is not allowed; use '//:' for the default target of " ++
          lit "the top-level module."
      else lit "Empty module without target is not allowed."))
  else if rest ≠ [] then .error (decodeError whole (lit "Missing ':' after module name."))
  else .ok (module, some (Path.filename module))

def parseExt (whole text : Str) (context : RefContext) :
    Except Str (Str × Str × Option Str) := do
  let (repo, rest) ← parseSegment whole text (some absToken)
  if rest = [] then .error (decodeError whole (lit "Missing '//' after repository name."))
  else
    let rest := rest.drop absToken.length
    if rest ≠ [] then
      if context = .file then .ok (repo, rest, some [])
      else
        let (module, target) ← parseAbs whole rest (context = .cli)
        .ok (repo, module, target)
    else if context = .cli then
      .error (decodeError whole (lit "Missing module name after '//'; use '<repo>//:' for the " ++
        lit "default target of the top-level module."))
    else .error (decodeError whole (lit "Missing module name after '//'."))

def decodeRefString (text : Str) (context : RefContext) : Except Str RefData := do
  let allowMissingTarget : Bool := context = .cli
  if sepToken <+: text then
    let target ← parseTarget text (text.drop sepToken.length) allowMissingTarget
    .ok ⟨.local, none, [], target⟩
  else if absToken <+: text then
    let (module, target) ← parseAbs text (text.drop absToken.length) allowMissingTarget
    .ok ⟨.abs, none, module, target⟩
  else if relToken <+: text then
    let (module, target) ← parseAbs text (text.drop relToken.length) allowMissingTarget
    .ok ⟨.rel, none, module, target⟩
  else
    let (repo, module, target) ← parseExt text text context
    .ok ⟨.ext, some repo, module, target⟩

/-- What makes `QuoteRefSegment` quote a segment that is a JSON string as it stands. -/
def needsQuoting (segment : Str) (kind : RefSegment) (allowEmpty : Bool) : Bool :=
  (segment.isEmpty && !allowEmpty) ||
    match kind with
    | .repo =>
      decide (sepToken <+: segment) || decide (relToken <+: segment) ||
        (findNext absToken segment).isSome
    | .module => (findNext sepToken segment).isSome
    | .target => false

/-- `QuoteRefSegment` — nothing if the segment is no UTF-8. -/
def quoteRefSegment (segment : Str) (kind : RefSegment) (allowEmpty : Bool) : Option Str := do
  let dumped ← JsonString.dump segment
  if needsQuoting segment kind allowEmpty ∨ dumped ≠ quote :: segment ++ [quote] then some dumped
  else some segment

/-- The last part of a reference string. -/
def encodeTarget (data : RefData) : Option Str := do
  let target ← data.target.elim (some []) (quoteRefSegment · .target false)
  some (sepToken ++ target)

/-- The parts of a reference string behind the repository. -/
def encodeModule (data : RefData) : Option Str := do
  let module ← quoteRefSegment data.module .module true
  let target ← encodeTarget data
  some ((if data.type = .rel then relToken else absToken) ++ module ++ target)

def encodeRefData (data : RefData) : Option Str :=
  match data.type with
  | .ext => do
    let repo ← quoteRefSegment (data.repo.getD []) .repo false
    let module ← encodeModule data
    some (repo ++ module)
  | .abs | .rel => encodeModule data
  | .local => encodeTarget data

end Jst.Lang.Ref
