import Jst.Lang.Ref
import Jst.Verif.ArgumentBinding
/-!
# Reference strings are read as they are spelled

Where only a separator or the end stands behind a closing quote, nothing in a reference string is
skipped. Two such strings are read as one reference only if their parts are quoted, escaped or
normalised in other ways, or the one omits a target that the other gives.
-/
namespace Jst.Verif.ReferenceSpelling

open Jst.Lang Jst.Lang.Ref
open Jst.JsonString (quote)
open ArgumentBinding (bind_eq_ok)

/-- A segment as it is spelled. -/
inductive Segment where
  | plain (text : Str)
  | quoted (body : Str)

/-- The characters of a segment. -/
def Segment.text : Segment → Str
  | plain text => text
  | quoted body => quote :: (body ++ [quote])

/-- The name that a segment spells. -/
def Segment.name : Segment → Option Str
  | plain text => some text
  | quoted body => JsonString.unescape body

/-- A module and its target; the target may be omitted, with or without its separator. -/
structure Named where
  module : Segment
  target : Option (Option Segment)

/-- The characters of a module and its target. -/
def Named.text (named : Named) : Str :=
  named.module.text ++ named.target.elim [] fun target => sepToken ++ target.elim [] Segment.text

/-- The target that is spelled behind a separator. -/
def targetName (target : Option Segment) : Option (Option Str) :=
  target.elim (some none) fun segment => segment.name.map some

/-- The module in its normal form. -/
def Named.moduleName (named : Named) : Option Str :=
  named.module.name.map normModule

/-- The target: that of the name of the module if it is omitted. -/
def Named.givenTarget (named : Named) : Option (Option Str) :=
  named.target.elim (named.moduleName.map fun module => some (Path.filename module)) targetName

/-- A reference string by its parts. -/
inductive Spelling where
  | local (target : Option Segment)
  | inModule (relative : Bool) (named : Named)
  | ext (repo : Segment) (named : Named)
  | file (repo : Segment) (path : Str)

/-- The characters of a reference string. -/
def Spelling.text : Spelling → Str
  | .local target => sepToken ++ target.elim [] Segment.text
  | inModule relative named => (if relative then relToken else absToken) ++ named.text
  | ext repo named => repo.text ++ (absToken ++ named.text)
  | file repo path => repo.text ++ (absToken ++ path)

/-- What a reference string names, part by part. -/
def Spelling.Names (data : RefData) : Spelling → Prop
  | .local target => data.type = .local ∧ data.repo = none ∧ data.module = [] ∧
    targetName target = some data.target
  | inModule relative named => data.type = (if relative then .rel else .abs) ∧ data.repo = none ∧
    named.moduleName = some data.module ∧ named.givenTarget = some data.target
  | ext repo named => data.type = .ext ∧ repo.name = data.repo ∧
    named.moduleName = some data.module ∧ named.givenTarget = some data.target
  | file repo path => data.type = .ext ∧ repo.name = data.repo ∧ path = data.module ∧
    data.target = some []

/-- A module and its target are the same but for quotes, escapes, the form of the path and an
omitted target. -/
def Named.Same (named named' : Named) : Prop :=
  named.moduleName = named'.moduleName ∧ named.givenTarget = named'.givenTarget

/-- Two reference strings are the same part by part. -/
def Spelling.Same : Spelling → Spelling → Prop
  | .local target, .local target' => targetName target = targetName target'
  | inModule relative named, inModule relative' named' => relative = relative' ∧ named.Same named'
  | ext repo named, ext repo' named' => repo.name = repo'.name ∧ named.Same named'
  | file repo path, file repo' path' => repo.name = repo'.name ∧ path = path'
  | _, _ => False

/-- A path behind a repository is that of a file just where files are named. -/
def Spelling.Fits (context : RefContext) : Spelling → Prop
  | ext _ _ => context ≠ .file
  | file _ _ => context = .file
  | _ => True

/-- Nothing stands behind a quoted target. -/
def Ended (whole text : Str) : Prop :=
  ∀ name rest, parseSegment whole text none = .ok (name, rest) → rest = []

/-- Nothing stands behind a quoted target behind a module. -/
def EndedModule (whole text : Str) : Prop :=
  ∀ name rest, parseSegment whole text (some sepToken) = .ok (name, rest) →
    Ended whole (rest.drop sepToken.length)

/-- Only a separator or the end stands behind a closing quote. -/
def Closed (context : RefContext) (text : Str) : Prop :=
  if sepToken <+: text then Ended text (text.drop sepToken.length)
  else if absToken <+: text then EndedModule text (text.drop absToken.length)
  else if relToken <+: text then EndedModule text (text.drop relToken.length)
  else ∀ name rest, parseSegment text text (some absToken) = .ok (name, rest) → rest ≠ [] →
    absToken <+: rest ∧ (context ≠ .file → EndedModule text (rest.drop absToken.length))

theorem findQuote_eq {escaped : Bool} {text body rest : Str}
    (found : findQuote escaped text = some (body, rest)) : text = body ++ quote :: rest := by
  induction text generalizing escaped body with
  | nil => cases found
  | cons byte text step =>
    rw [findQuote] at found
    split at found
    · next closes =>
      cases found
      rw [closes.1]
      rfl
    · obtain ⟨later, found', same⟩ := map_eq_some_iff.mp found
      cases same
      rw [step found']
      rfl

theorem findNext_eq {token text front back : Str}
    (found : findNext token text = some (front, back)) : text = front ++ back := by
  induction text generalizing front with
  | nil =>
    rw [findNext] at found
    split at found
    · cases found
      rfl
    · cases found
  | cons byte text step =>
    rw [findNext] at found
    split at found
    · cases found
      rfl
    · obtain ⟨later, found', same⟩ := map_eq_some_iff.mp found
      cases same
      rw [step found']
      rfl

theorem parseSegment_spelled {whole text name rest : Str} {stop : Option Str}
    (parsed : parseSegment whole text stop = .ok (name, rest)) :
    ∃ segment : Segment, segment.text ++ rest = text ∧ segment.name = some name := by
  rw [parseSegment] at parsed
  split at parsed
  · next opens =>
    split at parsed
    · cases parsed
    · next body behind found =>
      split at parsed
      · cases parsed
      · next unescaped =>
        cases parsed
        obtain ⟨tail, rfl⟩ := List.head?_eq_some_iff.mp opens
        exact ⟨.quoted body, by simpa [Segment.text] using (findQuote_eq found).symm, unescaped⟩
  · split at parsed
    · next found =>
      cases parsed
      obtain ⟨token, -, found⟩ := bind_eq_some_iff.mp found
      exact ⟨.plain name, (findNext_eq found).symm, rfl⟩
    · cases parsed
      exact ⟨.plain text, append_nil _, rfl⟩

variable {allowMissing : Bool}

theorem parseTarget_spelled {whole text : Str} {target : Option Str}
    (parsed : parseTarget whole text allowMissing = .ok target) (ended : Ended whole text) :
    ∃ spelled : Option Segment, spelled.elim [] Segment.text = text ∧
      targetName spelled = some target := by
  rw [parseTarget] at parsed
  split at parsed
  · cases segment : parseSegment whole text none with
    | error error =>
      rw [segment] at parsed
      cases parsed
    | ok found =>
      obtain ⟨spelled, written, named⟩ := parseSegment_spelled segment
      rw [segment] at parsed
      cases parsed
      exact ⟨some spelled, by simpa [ended _ _ segment] using written, by simp [targetName, named]⟩
  · next empty =>
    split at parsed
    · cases parsed
      exact ⟨none, by simpa [eq_comm] using empty, rfl⟩
    · cases parsed

theorem parseAbs_spelled {whole text : Str} {found : Str × Option Str}
    (parsed : parseAbs whole text allowMissing = .ok found) (ended : EndedModule whole text) :
    ∃ named : Named, named.text = text ∧ named.moduleName = some found.1 ∧
      named.givenTarget = some found.2 := by
  obtain ⟨⟨name, rest⟩, segment, continued⟩ := bind_eq_ok.mp parsed
  clear parsed
  have targetEnded := ended name rest segment
  obtain ⟨spelled, rfl, named⟩ := parseSegment_spelled segment
  simp only at continued
  split at continued
  · next separated =>
    obtain ⟨behind, rfl⟩ := separated
    rw [drop_left] at continued
    obtain ⟨target, last, same⟩ := bind_eq_ok.mp continued
    cases same
    obtain ⟨target', written, names⟩ := parseTarget_spelled last (by simpa using targetEnded)
    exact ⟨⟨spelled, some target'⟩, by simp [Named.text, written],
      by simp [Named.moduleName, named], by simp [Named.givenTarget, names]⟩
  · split at continued
    · cases continued
    · split at continued
      · cases continued
      · next nothing =>
        cases continued
        have none : rest = [] := by simpa using nothing
        exact ⟨⟨spelled, .none⟩, by simp [Named.text, none], by simp [Named.moduleName, named],
          by simp [Named.givenTarget, Named.moduleName, named]⟩

theorem parseExt_spelled {text : Str} {context : RefContext} {found : Str × Str × Option Str}
    (parsed : parseExt text text context = .ok found)
    (closed : ∀ name rest, parseSegment text text (some absToken) = .ok (name, rest) → rest ≠ [] →
      absToken <+: rest ∧ (context ≠ .file → EndedModule text (rest.drop absToken.length))) :
    ∃ spelling : Spelling, spelling.text = text ∧ spelling.Fits context ∧
      spelling.Names ⟨.ext, some found.1, found.2.1, found.2.2⟩ := by
  obtain ⟨⟨name, rest⟩, segment, continued⟩ := bind_eq_ok.mp parsed
  have closed := closed name rest segment
  obtain ⟨repo, written, named⟩ := parseSegment_spelled segment
  clear parsed
  simp only at continued
  split at continued
  · cases continued
  · next behindName =>
    obtain ⟨⟨behind, rfl⟩, ended⟩ := closed behindName
    rw [drop_left] at continued ended
    split at continued
    · split at continued
      · next file =>
        cases continued
        exact ⟨.file repo behind, written, file, rfl, named, rfl, rfl⟩
      · next notFile =>
        obtain ⟨⟨module, target⟩, read, same⟩ := bind_eq_ok.mp continued
        cases same
        obtain ⟨parts, rfl, names⟩ := parseAbs_spelled read (ended notFile)
        exact ⟨.ext repo parts, written, notFile, rfl, named, names⟩
    · split at continued <;> cases continued

theorem decodeRefString_spelled {text : Str} {context : RefContext} {data : RefData}
    (decoded : decodeRefString text context = .ok data) (closed : Closed context text) :
    ∃ spelling : Spelling, spelling.text = text ∧ spelling.Fits context ∧ spelling.Names data := by
  rw [decodeRefString] at decoded
  rw [Closed] at closed
  simp only [bind] at decoded
  split at decoded
  · next begins =>
    rw [if_pos begins] at closed
    obtain ⟨target, last, same⟩ := bind_eq_ok.mp decoded
    cases same
    obtain ⟨target', written, names⟩ := parseTarget_spelled last closed
    exact ⟨.local target', by rw [Spelling.text, written, List.prefix_iff_eq_append.mp begins],
      trivial, rfl, rfl, rfl, names⟩
  · next notLocal =>
    rw [if_neg notLocal] at closed
    split at decoded
    · next begins =>
      rw [if_pos begins] at closed
      obtain ⟨found, read, same⟩ := bind_eq_ok.mp decoded
      cases same
      obtain ⟨named, written, names⟩ := parseAbs_spelled read closed
      exact ⟨.inModule false named, by
        simp [Spelling.text, written, List.prefix_iff_eq_append.mp begins], trivial, rfl, rfl, names⟩
    · next notAbs =>
      rw [if_neg notAbs] at closed
      split at decoded
      · next begins =>
        rw [if_pos begins] at closed
        obtain ⟨found, read, same⟩ := bind_eq_ok.mp decoded
        cases same
        obtain ⟨named, written, names⟩ := parseAbs_spelled read closed
        exact ⟨.inModule true named, by
          simp [Spelling.text, written, List.prefix_iff_eq_append.mp begins], trivial, rfl, rfl,
            names⟩
      · next notRel =>
        rw [if_neg notRel] at closed
        obtain ⟨found, read, same⟩ := bind_eq_ok.mp decoded
        cases same
        exact parseExt_spelled read closed

variable {text text' : Str} {context : RefContext} {data data' : RefData}

theorem Spelling.Names.eq_iff {spelling spelling' : Spelling} (names : spelling.Names data)
    (fits : spelling.Fits context) (names' : spelling'.Names data')
    (fits' : spelling'.Fits context) : data = data' ↔ spelling.Same spelling' := by
  obtain ⟨type, repo, module, target⟩ := data
  obtain ⟨type', repo', module', target'⟩ := data'
  rcases spelling with _ | ⟨_ | _, _⟩ | _ | _ <;>
    rcases spelling' with _ | ⟨_ | _, _⟩ | _ | _ <;>
    simp_all [Spelling.Names, Spelling.Fits, Spelling.Same, Named.Same]

theorem decodeRefString_parts (decoded : decodeRefString text context = .ok data)
    (closed : Closed context text) (decoded' : decodeRefString text' context = .ok data')
    (closed' : Closed context text') : ∃ spelling spelling' : Spelling, spelling.text = text ∧
      spelling'.text = text' ∧ spelling.Names data ∧ spelling'.Names data' ∧
      (data = data' ↔ spelling.Same spelling') := by
  obtain ⟨spelling, written, fits, names⟩ := decodeRefString_spelled decoded closed
  obtain ⟨spelling', written', fits', names'⟩ := decodeRefString_spelled decoded' closed'
  exact ⟨spelling, spelling', written, written', names, names', names.eq_iff fits names' fits'⟩

theorem decodeRefString_parts_plain : ∃ spelling spelling' : Spelling, spelling.text = lit ":a" ∧
    spelling'.text = lit ":b" ∧ spelling.Names ⟨.local, none, [], some (lit "a")⟩ ∧
      spelling'.Names ⟨.local, none, [], some (lit "b")⟩ ∧
      (RefData.mk .local none [] (some (lit "a")) = ⟨.local, none, [], some (lit "b")⟩ ↔
        spelling.Same spelling') := by
  refine @decodeRefString_parts _ _ .target _ _ (by decide) ?_ (by decide) ?_
  · rintro name rest ⟨⟩
    rfl
  · rintro name rest ⟨⟩
    rfl

theorem decodeRefString_omitted :
    decodeRefString (lit "//foo") .target = .ok ⟨.abs, none, lit "foo", some (lit "foo")⟩ ∧
      decodeRefString (lit "//foo:foo") .target = .ok ⟨.abs, none, lit "foo", some (lit "foo")⟩ ∧
      decodeRefString (lit ":\"a\"b") .target = .ok ⟨.local, none, [], some (lit "a")⟩ := by
  refine ⟨?_, ?_, ?_⟩ <;> decide

end Jst.Verif.ReferenceSpelling
