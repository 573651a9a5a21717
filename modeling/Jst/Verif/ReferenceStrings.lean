import Jst.Lang.Ref
/-!
# Round trip of reference strings

The reader of reference strings undoes the writer unless it looks for the end of a segment in the
wrong place. A quoted segment ends at a quote behind no backslash, but a segment that ends in a
backslash is written with an escaped backslash right in front of its closing quote. A repository
name is read up to the first `//`, but a name that ends in a slash is not quoted for it; and the
name `.` makes the whole string look like a relative reference.
-/
namespace Jst.Verif.ReferenceStrings

open Jst.Lang Jst.Lang.Ref
open Jst.JsonString (quote backslash escape escapeByte IsUtf8)

variable {target : Option Str} {segment text module : Str}

/-! ## Segments in quotes -/

/-- Whether the last byte of a text is a backslash; for no text, whether one stands in front. -/
def escapedBehind : Bool → Str → Bool
  | escaped, [] => escaped
  | _, byte :: rest => escapedBehind (byte = backslash) rest

theorem findQuote_append (front back : Str) {escaped : Bool}
    (open' : findQuote escaped front = none) : findQuote escaped (front ++ back) =
      (findQuote (escapedBehind escaped front) back).map fun (body, rest) => (front ++ body, rest) := by
  induction front generalizing escaped with
  | nil => simp [escapedBehind]
  | cons byte rest ih =>
    have notEnd : ¬(byte = quote ∧ escaped = false) := by
      intro isEnd
      rw [findQuote, if_pos isEnd] at open'
      cases open'
    rw [findQuote, if_neg notEnd, Option.map_eq_none_iff] at open'
    rw [cons_append, findQuote, if_neg notEnd, ih open', Option.map_map]
    rfl

theorem findQuote_escapeByte (byte : UInt8) (escaped : Bool) :
    findQuote escaped (escapeByte byte) = none ∧
      escapedBehind escaped (escapeByte byte) = decide (byte = backslash) := by
  by_cases ascii : byte.toNat < 128
  · have every : ∀ number, number < 128 → ∀ escaped,
        findQuote escaped (escapeByte (UInt8.ofNat number)) = none ∧
          escapedBehind escaped (escapeByte (UInt8.ofNat number)) =
            decide (UInt8.ofNat number = backslash) := by
      decide
    have same := every byte.toNat ascii escaped
    rwa [UInt8.ofNat_toNat] at same
  · have high : 128 ≤ byte.toNat := by omega
    have notQuote : byte ≠ quote := by
      intro same
      rw [same] at high
      exact absurd high (by decide)
    rw [JsonString.escapeByte_high high]
    simp [findQuote, notQuote, escapedBehind]

theorem findQuote_escape (segment back : Str) (escaped : Bool) :
    findQuote escaped (escape segment ++ back) =
      (findQuote (escapedBehind escaped segment) back).map fun (body, rest) =>
        (escape segment ++ body, rest) := by
  induction segment generalizing escaped with
  | nil => simp [escape, escapedBehind]
  | cons byte rest ih =>
    have written := findQuote_escapeByte byte escaped
    show findQuote escaped (escapeByte byte ++ escape rest ++ back) = _
    rw [append_assoc, findQuote_append _ _ written.1, written.2, ih, Option.map_map]
    simp [comp_def, escapedBehind, escape]

/-- A segment ends in a byte. -/
def EndsIn (segment : Str) (byte : UInt8) : Prop := segment.getLast? = some byte

instance (segment : Str) (byte : UInt8) : Decidable (EndsIn segment byte) :=
  inferInstanceAs (Decidable (_ = _))

theorem escapedBehind_eq (segment : Str) :
    escapedBehind false segment = decide (EndsIn segment backslash) := by
  have general : ∀ segment : Str, ∀ escaped,
      escapedBehind escaped segment =
        decide (if segment = [] then escaped = true else EndsIn segment backslash) := by
    intro segment
    induction segment with
    | nil => intro escaped; simp [escapedBehind]
    | cons byte rest ih =>
      intro escaped
      rw [escapedBehind, ih]
      cases rest with
      | nil => simp [EndsIn]
      | cons next later => simp [EndsIn, List.getLast?_cons_cons]
  rw [general]
  cases segment with
  | nil => simp [EndsIn]
  | cons byte rest => simp

theorem findQuote_escaped_quote (rest : Str) : findQuote true (quote :: rest) =
      (findQuote false rest).map fun (body, behind) => (quote :: body, behind) := by
  have differs : ¬quote = backslash := by decide
  simp [findQuote, differs]

theorem parseSegment_quoted (utf8 : IsUtf8 segment) (whole rest : Str) (stop : Option Str) :
    (¬EndsIn segment backslash ∧
      parseSegment whole (quote :: (escape segment ++ quote :: rest)) stop = .ok (segment, rest)) ∨
    (EndsIn segment backslash ∧ ∃ error,
      parseSegment whole (quote :: (escape segment ++ quote :: rest)) stop = .error error) := by
  have found := findQuote_escape segment (quote :: rest) false
  rw [escapedBehind_eq] at found
  rw [parseSegment, if_pos (by rfl), List.tail_cons, found]
  by_cases ends : EndsIn segment backslash
  · right
    rw [decide_eq_true ends, findQuote_escaped_quote]
    refine ⟨ends, ?_⟩
    -- the closing quote is taken for an escaped one, and the search goes on behind it
    cases later : findQuote false rest with
    | none => exact ⟨_, rfl⟩
    | some tail =>
      have invalid := JsonString.unescape_escape_quote utf8 tail.1
      simp [invalid]
  · left
    have closes : findQuote false (quote :: rest) = some ([], rest) := by
      rw [findQuote, if_pos ⟨rfl, rfl⟩]
    rw [decide_eq_false ends, closes]
    refine ⟨ends, ?_⟩
    simp [JsonString.unescape_escape utf8]

/-! ## Segments without quotes -/

/-- A segment is written in quotes. -/
def Quoted (segment : Str) (kind : RefSegment) (allowEmpty : Bool) : Prop :=
  needsQuoting segment kind allowEmpty = true ∨ escape segment ≠ segment

instance (segment : Str) (kind : RefSegment) (allowEmpty : Bool) :
    Decidable (Quoted segment kind allowEmpty) :=
  inferInstanceAs (Decidable (_ ∨ _))

/-- What is written for a segment. -/
def written (segment : Str) (kind : RefSegment) (allowEmpty : Bool) : Str :=
  if Quoted segment kind allowEmpty then quote :: (escape segment ++ [quote]) else segment

theorem quoteRefSegment_eq (utf8 : IsUtf8 segment) (kind : RefSegment) (allowEmpty : Bool) :
    quoteRefSegment segment kind allowEmpty = some (written segment kind allowEmpty) := by
  have dumped : JsonString.dump segment = some (quote :: escape segment ++ [quote]) := if_pos utf8
  have sameText : quote :: escape segment ++ [quote] ≠ quote :: segment ++ [quote] ↔
      escape segment ≠ segment := by
    simp
  rw [quoteRefSegment, dumped, bind_eq_bind, bind_some]
  by_cases quoting : Quoted segment kind allowEmpty
  · rw [written, if_pos quoting, if_pos (quoting.imp_right sameText.mpr)]
    rfl
  · rw [written, if_neg quoting, if_neg fun other => quoting (other.imp_right sameText.mp)]

theorem length_written (segment : Str) (kind : RefSegment) (allowEmpty : Bool) :
    segment.length ≤ (written segment kind allowEmpty).length := by
  have escaped := JsonString.length_escape segment
  unfold written
  split
  · simp only [length_cons, length_append]
    omega
  · exact le_rfl

variable {kind : RefSegment} {allowEmpty : Bool}

theorem head_of_not_quoted
    (plain : ¬Quoted segment kind allowEmpty) (rest : Str) (nonempty : segment ≠ []) :
    (segment ++ rest).head? ≠ some quote := by
  cases segment with
  | nil => exact absurd rfl nonempty
  | cons byte tail =>
    intro begins
    have isQuote : byte = quote := some.inj begins
    apply plain
    right
    intro same
    have longer : (escapeByte byte ++ escape tail).length = (byte :: tail).length :=
      congrArg List.length same
    have two : (escapeByte quote).length = 2 := by decide
    have bound := JsonString.length_escape tail
    rw [isQuote, length_append, two, length_cons] at longer
    omega

theorem parseSegment_plain (whole : Str) (stop : Option Str) (plain : text.head? ≠ some quote) :
    parseSegment whole text stop = .ok ((stop.bind (findNext · text)).getD (text, [])) := by
  rw [parseSegment, if_neg plain]
  cases stop.bind (findNext · text) with
  | none => rfl
  | some found => rfl

variable {after front repo whole : Str}

theorem findNext_byte (byte : UInt8) (rest : Str) (free : findNext [byte] front = none) :
    findNext [byte] (front ++ byte :: rest) = some (front, byte :: rest) := by
  induction front with
  | nil => simp [findNext]
  | cons first tail ih =>
    rw [findNext] at free
    split at free
    · cases free
    · rename_i differs
      have notHere : ¬[byte] <+: first :: (tail ++ byte :: rest) := by
        simpa [cons_prefix_cons] using differs
      rw [cons_append, findNext, if_neg notHere, ih (Option.map_eq_none_iff.mp free)]
      rfl

theorem findNext_pair (byte : UInt8) (rest : Str)
    (free : findNext [byte, byte] front = none) (ends : ¬EndsIn front byte) :
    findNext [byte, byte] (front ++ byte :: byte :: rest) = some (front, byte :: byte :: rest) := by
  induction front with
  | nil => simp [findNext]
  | cons first tail ih =>
    rw [findNext] at free
    split at free
    · cases free
    · rename_i differs
      have notHere : ¬[byte, byte] <+: first :: (tail ++ byte :: byte :: rest) := by
        cases tail with
        | nil =>
          have other : first ≠ byte := by
            intro same
            exact ends (by rw [same]; rfl)
          simp [cons_prefix_cons, other.symm]
        | cons second later => simpa [cons_prefix_cons] using differs
      have tailEnds : ¬EndsIn tail byte := by
        intro tailEnd
        apply ends
        cases tail with
        | nil => cases tailEnd
        | cons second later => rwa [EndsIn, List.getLast?_cons_cons]
      rw [cons_append, findNext, if_neg notHere, ih (Option.map_eq_none_iff.mp free) tailEnds]
      rfl

theorem length_findNext_le (token front rest : Str) {found : Str × Str}
    (first : findNext token (front ++ token ++ rest) = some found) :
    found.1.length ≤ front.length := by
  induction front generalizing found with
  | nil =>
    cases token with
    | nil =>
      cases rest with
      | nil =>
        simp [findNext] at first
        simp [← first]
      | cons byte tail =>
        simp [findNext] at first
        simp [← first]
    | cons byte tail =>
      rw [nil_append, cons_append, findNext, if_pos (by simp [cons_prefix_cons])] at first
      simp [← some.inj first]
  | cons byte tail ih =>
    rw [cons_append, cons_append, findNext] at first
    split at first
    · simp [← some.inj first]
    · obtain ⟨later, reached, rfl⟩ := map_eq_some_iff.mp first
      have bound := ih reached
      simpa using bound

/-! ## Targets and modules -/

/-- A target is read back if it does not end in a backslash; the default target only where it may be
omitted. -/
def TargetReads (target : Option Str) (allowMissing : Bool) : Prop :=
  target.elim (allowMissing = true) fun name => ¬EndsIn name backslash

/-- What is written for a target. -/
def writtenTarget (target : Option Str) : Str := target.elim [] (written · .target false)

theorem written_quoted (quoted : Quoted segment kind allowEmpty) (rest : Str) :
    written segment kind allowEmpty ++ rest = quote :: (escape segment ++ quote :: rest) := by
  rw [written, if_pos quoted]
  simp

theorem quoted_of_endsIn (kind : RefSegment) (allowEmpty : Bool) (ends : EndsIn segment backslash) :
    Quoted segment kind allowEmpty := by
  right
  intro same
  obtain ⟨front, rfl⟩ : ∃ front, segment = front ++ [backslash] :=
    ⟨_, (List.dropLast_append_getLast? _ ends).symm⟩
  have longer : (escape front ++ [backslash, backslash]).length = (front ++ [backslash]).length := by
    have split : escape (front ++ [backslash]) = escape front ++ [backslash, backslash] := by
      simp [escape, List.flatMap_append, escapeByte, backslash, quote]
    rw [← split, same]
  have bound := JsonString.length_escape front
  simp only [length_append, length_cons, length_nil] at longer
  omega

theorem parseTarget_iff (utf8 : ∀ name, target = some name → IsUtf8 name) (whole : Str)
    (allowMissing : Bool) : parseTarget whole (writtenTarget target) allowMissing = .ok target ↔
      TargetReads target allowMissing := by
  cases target with
  | none =>
    cases allowMissing with
    | false => simp [parseTarget, writtenTarget, TargetReads]
    | true => simp [parseTarget, writtenTarget, TargetReads]
  | some name =>
    have valid := utf8 name rfl
    show parseTarget whole (written name .target false) allowMissing = _ ↔ ¬EndsIn name backslash
    by_cases quoted : Quoted name .target false
    · have shape := written_quoted quoted []
      rw [append_nil] at shape
      rw [shape, parseTarget, if_pos (cons_ne_nil _ _)]
      rcases parseSegment_quoted valid whole [] none with ⟨ends, read⟩ | ⟨ends, error, read⟩
      · rw [read]
        exact ⟨fun _ => ends, fun _ => rfl⟩
      · rw [read]
        exact ⟨fun same => (nomatch same), fun other => absurd ends other⟩
    · have nonempty : name ≠ [] := by
        intro empty
        exact quoted (.inl (by simp [needsQuoting, empty]))
      have head := head_of_not_quoted quoted [] nonempty
      rw [append_nil] at head
      rw [written, if_neg quoted, parseTarget, if_pos nonempty, parseSegment_plain whole none head]
      exact ⟨fun _ ends => quoted (quoted_of_endsIn _ _ ends), fun _ => rfl⟩

theorem parseAbs_iff (moduleUtf8 : IsUtf8 module) (utf8 : ∀ name, target = some name → IsUtf8 name)
    (normal : normModule module = module) (whole : Str) (allowMissing : Bool) :
    parseAbs whole (written module .module true ++ (sepToken ++ writtenTarget target))
        allowMissing = .ok (module, target) ↔
      ¬EndsIn module backslash ∧ TargetReads target allowMissing := by
  have targets := parseTarget_iff utf8 whole allowMissing
  have separated : sepToken <+: sepToken ++ writtenTarget target := List.prefix_append _ _
  have behind : (sepToken ++ writtenTarget target).drop sepToken.length = writtenTarget target :=
    drop_left
  have read : ∀ text, parseSegment whole text (some sepToken) =
      .ok (module, sepToken ++ writtenTarget target) →
      (parseAbs whole text allowMissing = .ok (module, target) ↔
        TargetReads target allowMissing) := by
    intro text segment
    rw [← targets, parseAbs, segment]
    simp only [bind, Except.bind, if_pos separated, behind, normal]
    cases parseTarget whole (writtenTarget target) allowMissing with
    | error text => exact ⟨fun same => (nomatch same), fun same => (nomatch same)⟩
    | ok found => simp
  by_cases quoted : Quoted module .module true
  · rw [written_quoted quoted]
    rcases parseSegment_quoted moduleUtf8 whole (sepToken ++ writtenTarget target)
      (some sepToken) with ⟨ends, segment⟩ | ⟨ends, error, segment⟩
    · rw [read _ segment]
      exact ⟨fun reads => ⟨ends, reads⟩, fun both => both.2⟩
    · rw [parseAbs, segment]
      exact ⟨fun same => (nomatch same), fun both => absurd ends both.1⟩
  · have free : findNext sepToken module = none := by
      by_contra found
      exact quoted (.inl (by simp [needsQuoting, Option.isSome_iff_ne_none, found]))
    have head : (module ++ (sepToken ++ writtenTarget target)).head? ≠ some quote := by
      by_cases empty : module = []
      · rw [empty]
        exact fun same => absurd (some.inj same) (by decide)
      · exact head_of_not_quoted quoted _ empty
    have found := findNext_byte 58 (writtenTarget target) free
    have segment : parseSegment whole (module ++ (sepToken ++ writtenTarget target))
        (some sepToken) = .ok (module, sepToken ++ writtenTarget target) := by
      rw [parseSegment_plain whole _ head]
      show Except.ok ((findNext sepToken (module ++ 58 :: writtenTarget target)).getD _) = _
      rw [show sepToken = [58] from rfl, found]
      rfl
    rw [written, if_neg quoted, read _ segment]
    exact ⟨fun reads => ⟨fun ends => quoted (quoted_of_endsIn _ _ ends), reads⟩, fun both => both.2⟩

/-! ## References -/

/-- Only the parts that the type of a reference has are given. -/
structure Applicable (data : RefData) : Prop where
  repo : data.type ≠ .ext → data.repo = none
  module : data.type = .local → data.module = []

/-- All parts of a reference are UTF-8. -/
structure Utf8Parts (data : RefData) : Prop where
  repo : ∀ name, data.repo = some name → IsUtf8 name
  module : IsUtf8 data.module
  target : ∀ name, data.target = some name → IsUtf8 name

/-- A repository name is read back if it does not end in a backslash, and if it is quoted unless it
ends in a slash or is `.`. -/

def RepoReads (repo : Str) : Prop :=
  ¬EndsIn repo backslash ∧ (Quoted repo .repo false ∨ ¬EndsIn repo Path.slash ∧ repo ≠ Path.here)

/-- When a reference is read back. A default target needs a context that has one, and the file
context has no references to targets of other repositories. -/
def Reads (context : RefContext) (data : RefData) : Prop :=
  TargetReads data.target (context = .cli) ∧ ¬EndsIn data.module backslash ∧
    (data.type = .ext → context ≠ .file ∧ ∃ repo, data.repo = some repo ∧ RepoReads repo)

/-- What is written for a reference. -/
def writtenRef (data : RefData) : Str :=
  let target := sepToken ++ writtenTarget data.target
  let module := written data.module .module true ++ target
  match data.type with
  | .ext => written (data.repo.getD []) .repo false ++ (absToken ++ module)
  | .abs => absToken ++ module
  | .rel => relToken ++ module
  | .local => target

variable {data : RefData}

theorem encodeRefData_eq (utf8 : Utf8Parts data) : encodeRefData data = some (writtenRef data) := by
  have target : encodeTarget data = some (sepToken ++ writtenTarget data.target) := by
    cases given : data.target with
    | none => simp [encodeTarget, given, writtenTarget]
    | some name =>
      simp [encodeTarget, given, writtenTarget, quoteRefSegment_eq (utf8.target name given)]
  have module := quoteRefSegment_eq utf8.module .module true
  have repo : quoteRefSegment (data.repo.getD []) .repo false =
      some (written (data.repo.getD []) .repo false) := by
    apply quoteRefSegment_eq
    cases given : data.repo with
    | none => exact rfl
    | some name => exact utf8.repo name given
  cases type : data.type <;>
    simp [encodeRefData, writtenRef, type, encodeModule, target, module, repo]

/-- A text does not begin like the references without a repository. -/
def BeginsWithRepo (text : Str) : Prop :=
  ¬sepToken <+: text ∧ ¬absToken <+: text ∧ ¬relToken <+: text

theorem beginsWithRepo_plain (plain : ¬Quoted repo .repo false)
    (slash : ¬EndsIn repo Path.slash) (here : repo ≠ Path.here) (rest : Str) :
    BeginsWithRepo (repo ++ (absToken ++ rest)) := by
  unfold BeginsWithRepo
  have unquoted : needsQuoting repo .repo false = false := by
    by_contra needs
    exact plain (.inl (by simpa using needs))
  simp only [needsQuoting, Bool.or_eq_false_iff, Bool.and_eq_false_imp, decide_eq_false_iff_not,
    Option.isSome_eq_false_iff, Option.isNone_iff_eq_none] at unquoted
  obtain ⟨empty, ⟨separator, relative⟩, absolute⟩ := unquoted
  rw [show sepToken = [58] from rfl] at *
  rw [show absToken = [Path.slash, Path.slash] from rfl] at *
  rw [show relToken = [Path.dot, Path.slash] from rfl] at *
  cases repo with
  | nil => exact absurd (empty rfl) (by decide)
  | cons first tail =>
    cases tail with
    | nil =>
      have notSlash : first ≠ Path.slash := by
        intro same
        exact slash (by rw [same]; rfl)
      have notDot : first ≠ Path.dot := by
        intro same
        exact here (by rw [same]; rfl)
      simp_all [cons_prefix_cons, eq_comm]
    | cons second later =>
      have notAbsolute : ¬[Path.slash, Path.slash] <+: first :: second :: later := by
        intro isPrefix
        rw [findNext, if_pos isPrefix] at absolute
        cases absolute
      simp_all [cons_prefix_cons]

theorem decode_ext_iff (type : data.type = .ext) (text : Str)
    (context : RefContext) : decodeRefString text context = .ok data ↔
      BeginsWithRepo text ∧ ∃ repo, data.repo = some repo ∧
        parseExt text text context = .ok (repo, data.module, data.target) := by
  unfold BeginsWithRepo
  obtain ⟨kind, name, module, target⟩ := data
  cases type
  rw [decodeRefString]
  by_cases separator : sepToken <+: text
  · simp only [if_pos separator, bind, Except.bind]
    cases parseTarget text (text.drop sepToken.length) (context = .cli) <;> simp [separator]
  by_cases absolute : absToken <+: text
  · simp only [if_neg separator, if_pos absolute, bind, Except.bind]
    cases parseAbs text (text.drop absToken.length) (context = .cli) <;> simp [absolute]
  by_cases relative : relToken <+: text
  · simp only [if_neg separator, if_neg absolute, if_pos relative, bind, Except.bind]
    cases parseAbs text (text.drop relToken.length) (context = .cli) <;> simp [relative]
  simp only [if_neg separator, if_neg absolute, if_neg relative, bind, Except.bind]
  cases parseExt text text context with
  | error message => simp
  | ok found =>
    simp only [separator, absolute, relative, not_false_eq_true, true_and, and_self,
      ok.injEq, RefData.mk.injEq]
    constructor
    · intro ⟨same, rest⟩
      refine ⟨found.1, same.symm, ?_⟩
      rw [← rest.1, ← rest.2]
    · intro ⟨repo, same, rest⟩
      rw [rest]
      exact ⟨same.symm, rfl, rfl⟩

theorem parseExt_iff
    (segment : parseSegment whole text (some absToken) = .ok (repo, absToken ++ after))
    (longer : module.length < after.length) (context : RefContext) :
    parseExt whole text context = .ok (repo, module, target) ↔
      context ≠ .file ∧ parseAbs whole after (context = .cli) = .ok (module, target) := by
  have some' : absToken ++ after ≠ [] := cons_ne_nil _ _
  have behind : (absToken ++ after).drop absToken.length = after := drop_left
  have nonempty : after ≠ [] := by
    intro empty
    rw [empty] at longer
    exact absurd longer (Nat.not_lt_zero _)
  rw [parseExt, segment]
  simp only [bind, Except.bind, if_neg some', behind, if_pos nonempty]
  by_cases file : context = .file
  · rw [if_pos file]
    constructor
    · intro same
      have tail : after = module := congrArg (·.2.1) (ok.inj same)
      rw [tail] at longer
      exact absurd longer (Nat.lt_irrefl _)
    · exact fun other => absurd file other.1
  · rw [if_neg file]
    cases parseAbs whole after (context = .cli) with
    | error message => simp
    | ok found => simp [file, Prod.ext_iff]

theorem repo_of_parseExt {context : RefContext}
    (parsed : parseExt whole text context = .ok (repo, module, target)) :
    ∃ behind, parseSegment whole text (some absToken) = .ok (repo, behind) := by
  rw [parseExt] at parsed
  cases segment : parseSegment whole text (some absToken) with
  | error message =>
    rw [segment] at parsed
    cases parsed
  | ok found =>
    refine ⟨found.2, ?_⟩
    have name : found.1 = repo := by
      simp only [segment, bind, Except.bind] at parsed
      split at parsed
      · cases parsed
      split at parsed
      · split at parsed
        · cases parsed
          rfl
        · split at parsed
          · cases parsed
          · cases parsed
            rfl
      · split at parsed <;> cases parsed
    rw [← name]

theorem repo_reads (utf8 : IsUtf8 repo)
    (front : text = written repo .repo false ++ (absToken ++ after)) :
    (RepoReads repo ∧ BeginsWithRepo text ∧
      parseSegment text text (some absToken) = .ok (repo, absToken ++ after)) ∨
    (¬RepoReads repo ∧ (BeginsWithRepo text →
      ∀ behind, parseSegment text text (some absToken) ≠ .ok (repo, behind))) := by
  by_cases quoted : Quoted repo .repo false
  · have shape := written_quoted quoted (absToken ++ after)
    have begins : ∀ byte tail, byte ≠ quote → ¬byte :: tail <+: text := by
      intro byte tail differs isPrefix
      rw [front, shape, cons_prefix_cons] at isPrefix
      exact differs isPrefix.1
    have read := parseSegment_quoted utf8 text (absToken ++ after) (some absToken)
    rw [← shape, ← front] at read
    rcases read with ⟨ends, segment⟩ | ⟨ends, error, segment⟩
    · exact .inl ⟨⟨ends, .inl quoted⟩, ⟨begins 58 _ (by decide), begins 47 _ (by decide),
        begins 46 _ (by decide)⟩, segment⟩
    · refine .inr ⟨fun reads => reads.1 ends, fun _ behind same => ?_⟩
      rw [segment] at same
      cases same
  rw [written, if_neg quoted] at front
  have nonempty : repo ≠ [] := by
    intro empty
    exact quoted (.inl (by simp [needsQuoting, empty]))
  have head : text.head? ≠ some quote := by
    rw [front]
    exact head_of_not_quoted quoted _ nonempty
  have free : findNext absToken repo = none := by
    by_contra found
    exact quoted (.inl (by simp [needsQuoting, Option.isSome_iff_ne_none, found]))
  have segment := parseSegment_plain text (some absToken) head
  rw [bind_some] at segment
  by_cases slash : EndsIn repo Path.slash
  · right
    refine ⟨?_, fun _ behind same => ?_⟩
    · rintro ⟨-, isQuoted | ⟨noSlash, -⟩⟩
      · exact quoted isQuoted
      · exact noSlash slash
    · -- the name is cut at the slash that it ends in
      obtain ⟨name, split⟩ : ∃ name, repo = name ++ [Path.slash] :=
        ⟨_, (List.dropLast_append_getLast? _ slash).symm⟩
      have one : [Path.slash].length = 1 := rfl
      have two : absToken.length = 2 := rfl
      have cut : text = name ++ absToken ++ (Path.slash :: after) := by
        rw [front, split]
        simp [show absToken = [Path.slash, Path.slash] from rfl]
      rw [segment] at same
      cases first : findNext absToken text with
      | none =>
        rw [first] at same
        have all : text = repo := congrArg fst (ok.inj same)
        have lengths := congrArg List.length (all.symm.trans front)
        simp only [length_append, two] at lengths
        omega
      | some found =>
        rw [first] at same
        have whole : found.1 = repo := congrArg fst (ok.inj same)
        rw [cut] at first
        have bound := length_findNext_le absToken name (Path.slash :: after) first
        rw [whole, split, length_append] at bound
        omega
  by_cases here : repo = Path.here
  · right
    refine ⟨?_, fun begins => absurd ?_ begins.2.2⟩
    · rintro ⟨-, isQuoted | ⟨-, other⟩⟩
      · exact quoted isQuoted
      · exact other here
    · rw [front, here]
      exact ⟨Path.slash :: after, rfl⟩
  left
  refine ⟨⟨fun ends => quoted (quoted_of_endsIn _ _ ends), .inr ⟨slash, here⟩⟩, ?_, ?_⟩
  · rw [front]
    exact beginsWithRepo_plain quoted slash here after
  · have found := findNext_pair Path.slash after free slash
    rw [segment, front]
    show Except.ok ((findNext absToken (repo ++ Path.slash :: Path.slash :: after)).getD _) = _
    rw [show absToken = [Path.slash, Path.slash] from rfl, found]
    rfl

theorem decode_ext (type : data.type = .ext) (utf8 : Utf8Parts data)
    (normal : normModule data.module = data.module) (context : RefContext) :
    decodeRefString (writtenRef data) context = .ok data ↔ Reads context data := by
  let after := written data.module .module true ++ (sepToken ++ writtenTarget data.target)
  have longer : data.module.length < after.length := by
    have bound := length_written data.module .module true
    have one : sepToken.length = 1 := rfl
    simp only [after, length_append, one]
    omega
  have rest := parseAbs_iff utf8.module utf8.target normal (writtenRef data) (context = .cli)
  rw [decode_ext_iff type]
  cases given : data.repo with
  | none =>
    constructor
    · intro ⟨_, repo, impossible, _⟩
      cases impossible
    · intro reads
      obtain ⟨-, repo, impossible, -⟩ := reads.2.2 type
      rw [given] at impossible
      cases impossible
  | some repo =>
    have front : writtenRef data = written repo .repo false ++ (absToken ++ after) := by
      simp [writtenRef, type, given, after]
    simp only [some.injEq, exists_eq_left', Reads, type, given, forall_const]
    rcases repo_reads (utf8.repo repo given) front with ⟨reads, begins, segment⟩ | ⟨fails, other⟩
    · rw [parseExt_iff segment longer, rest]
      exact ⟨fun ⟨_, file, module, target⟩ => ⟨target, module, file, reads⟩,
        fun ⟨target, module, file, _⟩ => ⟨begins, file, module, target⟩⟩
    · constructor
      · intro ⟨begins, parsed⟩
        obtain ⟨behind, segment⟩ := repo_of_parseExt parsed
        exact absurd segment (other begins behind)
      · intro ⟨_, _, _, reads⟩
        exact absurd reads fails

theorem decode_module {type : RefType} {token : Str}
    (kind : type = .abs ∧ token = absToken ∨ type = .rel ∧ token = relToken)
    (front : text = token ++ after) (context : RefContext) :
    decodeRefString text context = .ok ⟨type, none, module, target⟩ ↔
      parseAbs text after (context = .cli) = .ok (module, target) := by
  rcases kind with ⟨rfl, rfl⟩ | ⟨rfl, rfl⟩
  · have separator : ¬sepToken <+: absToken ++ after := by
      show ¬[58] <+: 47 :: 47 :: after
      simp [cons_prefix_cons]
    have behind : (absToken ++ after).drop absToken.length = after := drop_left
    rw [decodeRefString, front]
    simp only [if_neg separator, if_pos (List.prefix_append absToken after), bind, Except.bind,
      behind]
    cases parseAbs (absToken ++ after) after (context = .cli) <;> simp [Prod.ext_iff]
  · have separator : ¬sepToken <+: relToken ++ after := by
      show ¬[58] <+: 46 :: 47 :: after
      simp [cons_prefix_cons]
    have absolute : ¬absToken <+: relToken ++ after := by
      show ¬[47, 47] <+: 46 :: 47 :: after
      simp [cons_prefix_cons]
    have behind : (relToken ++ after).drop relToken.length = after := drop_left
    rw [decodeRefString, front]
    simp only [if_neg separator, if_neg absolute, if_pos (List.prefix_append relToken after), bind,
      Except.bind, behind]
    cases parseAbs (relToken ++ after) after (context = .cli) <;> simp [Prod.ext_iff]

/-- Reading what was written for a reference returns it exactly if every part is read back. -/
theorem decodeRefString_encodeRefData_iff {data : RefData} (applicable : Applicable data)
    (utf8 : Utf8Parts data) (normal : normModule data.module = data.module)
    (context : RefContext) :
    (∃ text, encodeRefData data = some text ∧ decodeRefString text context = .ok data) ↔
      Reads context data := by
  have one : (∃ text, encodeRefData data = some text ∧
      decodeRefString text context = .ok data) ↔
      decodeRefString (writtenRef data) context = .ok data := by
    simp [encodeRefData_eq utf8]
  rw [one]
  have targets := parseTarget_iff utf8.target (writtenRef data) (context = .cli)
  have modules := parseAbs_iff utf8.module utf8.target normal (writtenRef data) (context = .cli)
  obtain ⟨type, repo, module, target⟩ := data
  cases type with
  | ext => exact decode_ext rfl utf8 normal context
  | «local» =>
    have noRepo : repo = none := applicable.repo RefType.noConfusion
    have noModule : module = [] := applicable.module rfl
    subst noRepo noModule
    let text := sepToken ++ writtenTarget target
    have begins : sepToken <+: text := List.prefix_append _ _
    have behind : text.drop sepToken.length = writtenTarget target := drop_left
    show decodeRefString text context = _ ↔ _
    rw [decodeRefString]
    simp only [if_pos begins, bind, Except.bind, behind]
    have reads : Reads context ⟨.local, none, [], target⟩ ↔ TargetReads target (context = .cli) :=
      ⟨fun all => all.1, fun target => ⟨target, fun ends => (nomatch ends), fun ext => (nomatch ext)⟩⟩
    rw [reads, ← targets]
    show _ ↔ parseTarget text _ _ = _
    cases parseTarget text (writtenTarget target) (context = .cli) <;> simp
  | abs =>
    have noRepo : repo = none := applicable.repo RefType.noConfusion
    subst noRepo
    refine ((decode_module (.inl ⟨rfl, rfl⟩) rfl context).trans modules).trans ?_
    exact ⟨fun ⟨module, target⟩ => ⟨target, module, fun ext => (nomatch ext)⟩,
      fun ⟨target, module, _⟩ => ⟨module, target⟩⟩
  | rel =>
    have noRepo : repo = none := applicable.repo RefType.noConfusion
    subst noRepo
    refine ((decode_module (.inr ⟨rfl, rfl⟩) rfl context).trans modules).trans ?_
    exact ⟨fun ⟨module, target⟩ => ⟨target, module, fun ext => (nomatch ext)⟩,
      fun ⟨target, module, _⟩ => ⟨module, target⟩⟩

theorem decodeRefString_not_encodeRefData :
    ¬∀ (data : RefData), Applicable data → Utf8Parts data → normModule data.module = data.module →
      ∀ context, (data.target = none → context = .cli) → (data.type = .ext → context ≠ .file) →
        ∃ text, encodeRefData data = some text ∧ decodeRefString text context = .ok data := by
  intro same
  let data : RefData := ⟨.abs, none, lit "foo", some (lit "bar\\")⟩
  have utf8 : Utf8Parts data :=
    ⟨fun name given => (nomatch given), by decide,
      fun name given => by rw [← some.inj given]; decide⟩
  obtain ⟨text, encoded, decoded⟩ := same data
    ⟨fun _ => rfl, fun type => absurd (show RefType.abs = .local from type) (by decide)⟩ utf8
    (by decide) .target (fun missing => (nomatch missing)) (fun _ => RefContext.noConfusion)
  have wrote : encodeRefData data = some (lit "//foo:\"bar\\\\\"") := by decide
  rw [wrote] at encoded
  rw [← some.inj encoded] at decoded
  have failed : decodeRefString (lit "//foo:\"bar\\\\\"") .target =
      .error (decodeError (lit "//foo:\"bar\\\\\"") (lit "Unterminated quote.")) := by
    decide
  rw [failed] at decoded
  cases decoded

theorem decodeRefString_encodeRefData_quoted :
    ∃ text, encodeRefData ⟨.ext, some (lit "a//b"), lit "m:\"n", some (lit "t\\:@\"")⟩ =
        some text ∧
      decodeRefString text .target =
        .ok ⟨.ext, some (lit "a//b"), lit "m:\"n", some (lit "t\\:@\"")⟩ :=
  (decodeRefString_encodeRefData_iff
    ⟨fun other => absurd rfl other, fun type => absurd (show RefType.ext = .local from type)
      (by decide)⟩
    ⟨fun name given => by rw [← some.inj given]; decide, by decide,
      fun name given => by rw [← some.inj given]; decide⟩ (by decide) .target).mpr
    ⟨show ¬EndsIn _ _ by decide, by decide,
      fun _ => ⟨RefContext.noConfusion, _, rfl, by decide, .inl (by decide)⟩⟩

end Jst.Verif.ReferenceStrings
