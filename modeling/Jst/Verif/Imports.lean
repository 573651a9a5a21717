import Mathlib.Data.Finset.Card
import Mathlib.Logic.Relation
import Jst.Lang.Import
/-!
# Imports

The parser of a file reads the same tokens whatever its imports evaluate to, so which files it asks
for is a property of the file. Parsing a file with all its imports ends, and where every file can be
parsed on its own it fails exactly if some file reaches itself; it then fails with a cycle of
imports.
-/
namespace Jst.Verif.Imports

open Jst.Lang Jst.Lang.NativeParser
open Jst.Consumer (Related Bounded)
open Nat (sub_le)
open Relation (ReflTransGen TransGen)

variable {load : Str → Except ParseError Node} {chain : List FileLocation}
  {location other : FileLocation} {nesting : Nat} {error : ParseError} {ast : Node} {filename : Str}
  {tokens : List Token}

/-! ## Parsers with different imports -/

/-- An error of the parser itself. -/
def Own : ParseError → Prop
  | .cycle _ => False
  | _ => True

/-- Where two parsers of the same tokens stop: both at an error of their own, or one or both of them
at an import that fails. -/
inductive Stop (left right : Str → Except ParseError Node) :
    Option ParseError → Option ParseError → Prop where
  | own {error : ParseError} (own : Own error) : Stop left right (some error) (some error)
  | both {file : Str} {first second : ParseError} (failedLeft : left file = .error first)
    (failedRight : right file = .error second) : Stop left right (some first) (some second)
  | left {file : Str} {error : ParseError} {ast : Node} (failed : left file = .error error)
    (loaded : right file = .ok ast) : Stop left right (some error) none
  | right {file : Str} {error : ParseError} {ast : Node} (loaded : left file = .ok ast)
    (failed : right file = .error error) : Stop left right none (some error)

/-- Nothing is asked of two nodes. -/
def AnyNode (_ _ : Node) : Prop := True

/-- Two optional nodes are given or not. -/
def SameGiven (left right : Option Node) : Prop := left.isSome = right.isSome

/-- Two lists of arguments have the same names. -/
def SameNames (left right : List Argument) : Prop :=
  left.map Argument.name = right.map Argument.name

/-- Two keys leave the same names seen. -/
def SameSeen (left right : Node × List Str) : Prop := left.2 = right.2

variable {filename : Str} {left right : Str → Except ParseError Node}

theorem throw_own {Left Right : Type} {Value : Left → Right → Prop} (own : Own error) :
    Related (Stop left right) Value (throw error : Parse Left) (throw error : Parse Right) := by
  intro tokens
  exact .inr ⟨some error, some error, .own own, fun _ same => congrArg Except.error (some.inj same),
    fun _ same => congrArg Except.error (some.inj same)⟩

theorem parserException_related {Left Right : Type} {Value : Left → Right → Prop} (text : Str) :
    Related (Stop left right) Value (parserException text : Parse Left)
      (parserException text : Parse Right) :=
  throw_own trivial

theorem unexpected_related {Left Right : Type} {Value : Left → Right → Prop} (token : Token)
    (doing : Str) : Related (Stop left right) Value (unexpected filename token doing : Parse Left)
      (unexpected filename token doing : Parse Right) := by
  unfold unexpected
  split
  · exact parserException_related _
  · exact throw_own trivial

theorem peek_related : Related (Stop left right) Eq peek peek := by
  apply Related.refl
  intro tokens error failed
  cases tokens with
  | nil =>
    cases failed
    exact .own trivial
  | cons token rest => cases failed

theorem peekNext_related : Related (Stop left right) Eq peekNext peekNext := by
  apply Related.refl
  intro tokens error failed
  cases tokens with
  | nil =>
    cases failed
    exact .own trivial
  | cons token rest =>
    cases rest with
    | nil =>
      cases failed
      exact .own trivial
    | cons next rest => cases failed

theorem advance_related : Related (Stop left right) Eq advance advance := by
  apply Related.refl
  intro tokens error failed
  cases failed

theorem size_related : Related (Stop left right) Eq size size := by
  apply Related.refl
  intro tokens error failed
  cases failed

theorem pop_related : Related (Stop left right) Eq pop pop := by
  apply Related.bind peek_related
  intro token _ same
  apply Related.skip advance_related
  exact Related.pure same

theorem popCheck_related (type : TokenType) (value : Option Str) :
    Related (Stop left right) Eq (popCheck type value) (popCheck type value) := by
  apply Related.bind pop_related
  rintro token _ rfl
  split
  · split
    · exact throw_own trivial
    · exact throw_own trivial
  · split
    · exact Related.pure rfl
    · split
      · exact throw_own trivial
      · exact Related.pure rfl

theorem skipComma_related : Related (Stop left right) Eq skipComma skipComma := by
  apply Related.bind peek_related
  rintro token _ rfl
  split
  · apply Related.skip advance_related
    exact Related.pure rfl
  · exact Related.pure rfl

theorem closeCall_related : Related (Stop left right) Eq closeCall closeCall := by
  apply Related.bind size_related
  rintro count _ rfl
  split
  · apply Related.skip (popCheck_related _ _)
    exact Related.pure rfl
  · exact Related.pure rfl

theorem parseName_related (next : Token) :
    Related (Stop left right) Eq (parseName next) (parseName next) := by
  unfold parseName
  split
  · apply Related.bind peekNext_related
    rintro maybeEq _ rfl
    split
    · apply Related.skip advance_related
      apply Related.skip advance_related
      exact Related.pure rfl
    · exact Related.pure rfl
  · exact Related.pure rfl

theorem load_related (file : Str) :
    Related (Stop left right) AnyNode (liftM (left file) : Parse Node)
      (liftM (right file) : Parse Node) := by
  intro tokens
  cases first : left file with
  | error error =>
    cases second : right file with
    | error other =>
      exact .inr ⟨some error, some other, .both first second,
        fun _ same => congrArg Except.error (some.inj same),
        fun _ same => congrArg Except.error (some.inj same)⟩
    | ok ast =>
      exact .inr ⟨some error, none, .left first second,
        fun _ same => congrArg Except.error (some.inj same), fun _ same => (nomatch same)⟩
  | ok ast =>
    cases second : right file with
    | error other =>
      exact .inr ⟨none, some other, .right first second, fun _ same => (nomatch same),
        fun _ same => congrArg Except.error (some.inj same)⟩
    | ok other => exact .inl ⟨ast, other, tokens, rfl, rfl, trivial⟩

/-- Two parsers of the same tokens with different imports read the same until one of them stops. -/
structure SameRuns (filename : Str) (left right : Str → Except ParseError Node) (depth : Nat) :
    Prop where
  parse : ∀ priority, Related (Stop left right) AnyNode (parse ⟨filename, left⟩ depth priority)
    (parse ⟨filename, right⟩ depth priority)
  simple : Related (Stop left right) AnyNode (parseSimple ⟨filename, left⟩ depth)
    (parseSimple ⟨filename, right⟩ depth)
  items : ∀ first second gotComma, Related (Stop left right) AnyNode
    (parseItems ⟨filename, left⟩ depth first gotComma)
    (parseItems ⟨filename, right⟩ depth second gotComma)
  operators : ∀ first second max, Related (Stop left right) AnyNode
    (parseInfix ⟨filename, left⟩ depth first max) (parseInfix ⟨filename, right⟩ depth second max)
  content : ∀ first second seen state, Related (Stop left right) AnyNode
    (parseContent ⟨filename, left⟩ depth first seen state)
    (parseContent ⟨filename, right⟩ depth second seen state)
  field : ∀ token seen, Related (Stop left right) (fun first second => first.2 = second.2)
    (parseField ⟨filename, left⟩ depth token seen) (parseField ⟨filename, right⟩ depth token seen)
  value : Related (Stop left right) AnyNode (parseValue ⟨filename, left⟩ depth)
    (parseValue ⟨filename, right⟩ depth)
  key : ∀ token seen, Related (Stop left right) SameSeen
    (parseKey ⟨filename, left⟩ depth token seen) (parseKey ⟨filename, right⟩ depth token seen)
  localImport : Related (Stop left right) SameGiven (parseLocalImport ⟨filename, left⟩ depth)
    (parseLocalImport ⟨filename, right⟩ depth)
  args : ∀ first gotComma, Related (Stop left right) SameNames
    (parseArgs ⟨filename, left⟩ depth first gotComma)
    (parseArgs ⟨filename, right⟩ depth first gotComma)

variable {depth : Nat}

theorem parse_related (calls : SameRuns filename left right depth) (priority : Nat) :
    Related (Stop left right) AnyNode (parse ⟨filename, left⟩ (depth + 1) priority)
      (parse ⟨filename, right⟩ (depth + 1) priority) := by
  rw [parse, parse]
  apply Related.bind calls.localImport
  intro first second given
  cases first with
  | some ast =>
    cases second with
    | some other => exact Related.pure trivial
    | none => cases given
  | none =>
    cases second with
    | some other => cases given
    | none =>
      apply Related.skip peek_related
      apply Related.bind calls.simple
      intro lhs other _
      exact calls.operators lhs other priority

theorem parseSimple_related (calls : SameRuns filename left right depth) :
    Related (Stop left right) AnyNode (parseSimple ⟨filename, left⟩ (depth + 1))
      (parseSimple ⟨filename, right⟩ (depth + 1)) := by
  rw [parseSimple, parseSimple]
  apply Related.bind pop_related
  rintro tok _ rfl
  cases type : tok.type with
  | operator =>
    simp only
    split
    · exact parserException_related _
    · apply Related.bind (calls.parse unaryPriority)
      intro _ _ _
      exact Related.pure trivial
  | braceL =>
    apply Related.skip peek_related
    exact calls.content [] [] [] .firstField
  | bracketL =>
    apply Related.bind peek_related
    rintro next _ rfl
    split
    · apply Related.skip advance_related
      exact Related.pure trivial
    · apply Related.bind (calls.parse maxPriority)
      intro first second _
      apply Related.bind peek_related
      rintro behind _ rfl
      apply Related.bind skipComma_related
      rintro gotComma _ rfl
      split
      · apply Related.skip advance_related
        apply Related.bind (popCheck_related _ _)
        intro _ _ _
        apply Related.skip (popCheck_related _ _)
        apply Related.bind (calls.parse maxPriority)
        intro _ _ _
        apply Related.skip (popCheck_related _ _)
        apply Related.skip peek_related
        exact Related.pure trivial
      · exact calls.items [first] [second] _
  | parenL =>
    apply Related.bind (calls.parse maxPriority)
    intro _ _ _
    apply Related.skip (popCheck_related _ _)
    exact Related.pure trivial
  | float | integer | number =>
    simp only
    split
    · exact Related.pure trivial
    · exact throw_own trivial
  | refString =>
    simp only
    split
    · exact Related.pure trivial
    · exact throw_own trivial
  | stringSingle | stringDouble | textBlock | varString | «false» | «true» | nullLit | identifier =>
    exact Related.pure trivial
  | «local» => exact throw_own trivial
  | _ => exact unexpected_related _ _

theorem parseItems_related (calls : SameRuns filename left right depth) (first second : List Node)
    (gotComma : Bool) :
    Related (Stop left right) AnyNode (parseItems ⟨filename, left⟩ (depth + 1) first gotComma)
      (parseItems ⟨filename, right⟩ (depth + 1) second gotComma) := by
  rw [parseItems, parseItems]
  apply Related.bind peek_related
  rintro tok _ rfl
  split
  · apply Related.skip advance_related
    apply Related.skip peek_related
    exact Related.pure trivial
  · split
    · exact parserException_related _
    · apply Related.bind (calls.parse maxPriority)
      intro _ _ _
      apply Related.skip skipComma_related
      exact calls.items _ _ _

theorem callParams_names {first second : List Argument} (names : SameNames first second) :
    ∀ gotNamed, positionalBehindNamed gotNamed (callParams first) =
      positionalBehindNamed gotNamed (callParams second) := by
  induction first generalizing second with
  | nil =>
    cases second with
    | nil => exact fun _ => rfl
    | cons argument rest => cases names
  | cons argument rest ih =>
    cases second with
    | nil => cases names
    | cons other others =>
      obtain ⟨same, later⟩ := cons.inj names
      have tail := ih later
      intro gotNamed
      show positionalBehindNamed gotNamed ((argument.name, argument.expr) :: callParams rest) =
        positionalBehindNamed gotNamed ((other.name, other.expr) :: callParams others)
      rw [same]
      cases other.name with
      | some name => exact tail true
      | none => exact congrArg (gotNamed || ·) (tail gotNamed)

section

variable (calls : SameRuns filename left right depth)
include calls

theorem parseInfix_related (first second : Node) (max : Nat) :
    Related (Stop left right) AnyNode (parseInfix ⟨filename, left⟩ (depth + 1) first max)
      (parseInfix ⟨filename, right⟩ (depth + 1) second max) := by
  have stay : ∀ lhs other : Node, Related (Stop left right) AnyNode (pure lhs : Parse Node)
      (pure other : Parse Node) := fun _ _ => Related.pure trivial
  rw [parseInfix, parseInfix]
  apply Related.bind size_related
  rintro count _ rfl
  split
  · exact stay _ _
  apply Related.bind peek_related
  rintro next _ rfl
  cases type : next.type with
  | «in» | operator =>
    simp only
    split
    · exact stay _ _
    split
    · exact parserException_related _
    split
    · exact stay _ _
    apply Related.skip advance_related
    apply Related.bind (calls.parse _)
    intro _ _ _
    exact calls.operators _ _ max
  | dot =>
    simp only
    split
    · exact stay _ _
    apply Related.skip advance_related
    apply Related.bind (popCheck_related _ _)
    rintro field _ rfl
    exact calls.operators _ _ max
  | bracketL =>
    simp only
    split
    · exact stay _ _
    apply Related.skip advance_related
    apply Related.bind peek_related
    rintro start _ rfl
    split
    · exact parserException_related _
    split
    · exact parserException_related _
    apply Related.bind (calls.parse maxPriority)
    intro _ _ _
    apply Related.bind peek_related
    rintro close _ rfl
    split
    · exact parserException_related _
    apply Related.skip advance_related
    apply Related.skip peek_related
    exact calls.operators _ _ max
  | parenL =>
    simp only
    split
    · exact stay _ _
    apply Related.skip advance_related
    apply Related.bind (calls.args true false)
    intro arguments others names
    apply Related.skip closeCall_related
    apply Related.skip peek_related
    rw [callParams_names names]
    split
    · exact parserException_related _
    · exact calls.operators _ _ max
  | braceL =>
    simp only
    split
    · exact stay _ _
    apply Related.skip advance_related
    exact parserException_related _
  | _ => exact stay _ _

theorem parseContent_related (first second : List (Node × Node)) (seen : List Str)
    (state : FieldState) : Related (Stop left right) AnyNode
      (parseContent ⟨filename, left⟩ (depth + 1) first seen state)
      (parseContent ⟨filename, right⟩ (depth + 1) second seen state) := by
  rw [parseContent, parseContent]
  apply Related.bind peek_related
  rintro tok _ rfl
  split
  · apply Related.bind size_related
    rintro count _ rfl
    simp only
    split
    · apply Related.skip advance_related
      exact Related.pure trivial
    · exact Related.pure trivial
  split
  · apply Related.skip advance_related
    apply Related.bind (popCheck_related _ _)
    intro _ _ _
    apply Related.skip (popCheck_related _ _)
    apply Related.bind (calls.parse maxPriority)
    intro _ _ _
    apply Related.skip (popCheck_related _ _)
    exact Related.pure trivial
  split
  · exact parserException_related _
  apply Related.bind (calls.field tok seen)
  rintro ⟨field, seen⟩ ⟨other, _⟩ rfl
  apply Related.bind skipComma_related
  rintro gotComma _ rfl
  exact calls.content _ _ _ _

theorem parseField_related (token : Token) (seen : List Str) :
    Related (Stop left right) (fun first second => first.2 = second.2)
      (parseField ⟨filename, left⟩ (depth + 1) token seen)
      (parseField ⟨filename, right⟩ (depth + 1) token seen) := by
  rw [parseField, parseField]
  apply Related.bind (calls.key token seen)
  rintro ⟨lhs, seen⟩ ⟨other, _⟩ rfl
  apply Related.bind peek_related
  rintro next _ rfl
  split
  · apply Related.skip advance_related
    apply Related.bind (calls.args true false)
    intro _ _ _
    apply Related.skip (popCheck_related _ _)
    apply Related.bind calls.value
    intro _ _ _
    exact Related.pure rfl
  · apply Related.bind calls.value
    intro _ _ _
    exact Related.pure rfl

theorem parseValue_related :
    Related (Stop left right) AnyNode (parseValue ⟨filename, left⟩ (depth + 1))
      (parseValue ⟨filename, right⟩ (depth + 1)) := by
  rw [parseValue, parseValue]
  apply Related.bind (popCheck_related _ _)
  rintro colon _ rfl
  split
  · exact parserException_related _
  · exact calls.parse maxPriority

theorem parseKey_related (token : Token) (seen : List Str) :
    Related (Stop left right) SameSeen (parseKey ⟨filename, left⟩ (depth + 1) token seen)
      (parseKey ⟨filename, right⟩ (depth + 1) token seen) := by
  rw [parseKey, parseKey]
  split
  · split
    · exact parserException_related _
    · apply Related.skip advance_related
      exact Related.pure rfl
  · split
    · split
      · apply Related.skip advance_related
        exact Related.pure rfl
      · exact throw_own trivial
    · apply Related.skip advance_related
      exact Related.pure rfl
    · apply Related.skip advance_related
      apply Related.bind (calls.parse maxPriority)
      intro _ _ _
      apply Related.skip (popCheck_related _ _)
      exact Related.pure rfl
    · exact unexpected_related _ _

theorem parseLocalImport_related :
    Related (Stop left right) SameGiven (parseLocalImport ⟨filename, left⟩ (depth + 1))
      (parseLocalImport ⟨filename, right⟩ (depth + 1)) := by
  rw [parseLocalImport, parseLocalImport]
  apply Related.bind peek_related
  rintro start _ rfl
  cases type : start.type with
  | «local» =>
    apply Related.skip advance_related
    apply Related.bind (popCheck_related _ _)
    intro _ _ _
    apply Related.bind peek_related
    rintro next _ rfl
    split
    · apply Related.skip advance_related
      apply Related.bind (calls.args true false)
      intro _ _ _
      apply Related.skip advance_related
      apply Related.skip (popCheck_related _ _)
      apply Related.bind (calls.parse maxPriority)
      intro _ _ _
      apply Related.skip (popCheck_related _ _)
      apply Related.bind (calls.parse maxPriority)
      intro _ _ _
      exact Related.pure rfl
    split
    · apply Related.skip advance_related
      apply Related.bind (calls.parse maxPriority)
      intro _ _ _
      apply Related.skip (popCheck_related _ _)
      apply Related.bind (calls.parse maxPriority)
      intro _ _ _
      exact Related.pure rfl
    · exact parserException_related _
  | «import» =>
    apply Related.skip advance_related
    apply Related.bind pop_related
    rintro tok _ rfl
    cases kind : tok.type with
    | stringSingle | stringDouble =>
      apply Related.bind (load_related tok.value)
      intro _ _ _
      apply Related.skip peek_related
      exact Related.pure rfl
    | _ => exact parserException_related _
  | function =>
    apply Related.skip advance_related
    apply Related.bind pop_related
    rintro next _ rfl
    split
    · apply Related.bind (calls.args true false)
      intro _ _ _
      apply Related.skip advance_related
      apply Related.bind (calls.parse maxPriority)
      intro _ _ _
      exact Related.pure rfl
    · exact parserException_related _
  | «if» =>
    apply Related.skip advance_related
    apply Related.bind (calls.parse maxPriority)
    intro _ _ _
    apply Related.skip (popCheck_related _ _)
    apply Related.bind (calls.parse maxPriority)
    intro _ _ _
    apply Related.bind peek_related
    rintro next _ rfl
    split
    · apply Related.skip advance_related
      apply Related.bind (calls.parse maxPriority)
      intro _ _ _
      exact Related.pure rfl
    · exact Related.pure rfl
  | _ => exact Related.pure rfl

theorem parseArgs_related (first gotComma : Bool) :
    Related (Stop left right) SameNames (parseArgs ⟨filename, left⟩ (depth + 1) first gotComma)
      (parseArgs ⟨filename, right⟩ (depth + 1) first gotComma) := by
  rw [parseArgs, parseArgs]
  apply Related.bind peek_related
  rintro next _ rfl
  split
  · exact Related.pure rfl
  split
  · exact parserException_related _
  apply Related.bind (parseName_related next)
  rintro ⟨name, tempName⟩ _ rfl
  apply Related.bind (calls.parse maxPriority)
  intro _ _ _
  apply Related.bind skipComma_related
  rintro comma _ rfl
  apply Related.bind (calls.args false comma)
  intro rest others names
  exact Related.pure (congrArg (name :: ·) names)

end

theorem sameRuns (filename : Str) (left right : Str → Except ParseError Node) (depth : Nat) :
    SameRuns filename left right depth := by
  induction depth with
  | zero =>
    constructor
    all_goals intros
    all_goals exact throw_own trivial
  | succ depth calls =>
    exact {
      parse := parse_related calls
      simple := parseSimple_related calls
      items := parseItems_related calls
      operators := parseInfix_related calls
      content := parseContent_related calls
      field := parseField_related calls
      value := parseValue_related calls
      key := parseKey_related calls
      localImport := parseLocalImport_related calls
      args := parseArgs_related calls }

/-! ## Enough nested calls -/

section Depth

variable {Result : Type} {context : Context} {available : Nat} {left : Result → Nat}

variable {next : Token → Parse Result}

theorem Bounded.peek_bind
    (tail : 0 < available → ∀ token, Bounded .depth available left (next token)) :
    Bounded .depth available left (peek >>= next) := by
  intro tokens bound
  cases tokens with
  | nil => exact ⟨fun same => (nomatch same), fun _ _ same => (nomatch same)⟩
  | cons token rest =>
    have some' : 0 < available := Nat.lt_of_lt_of_le (Nat.succ_pos _) bound
    exact tail some' token (token :: rest) bound

theorem Bounded.peekNext_bind (tail : ∀ token, Bounded .depth available left (next token)) :
    Bounded .depth available left (peekNext >>= next) := by
  intro tokens bound
  match tokens with
  | [] | [_] => exact ⟨fun same => (nomatch same), fun _ _ same => (nomatch same)⟩
  | first :: token :: rest => exact tail token (first :: token :: rest) bound

theorem Bounded.advance_bind {next : Unit → Parse Result}
    (tail : ∀ done, Bounded .depth (available - 1) left (next done)) :
    Bounded .depth available left (advance >>= next) := by
  intro tokens bound
  have shorter : tokens.tail.length ≤ available - 1 := by
    rw [List.length_tail]
    omega
  exact tail () tokens.tail shorter

theorem Bounded.size_bind {next : Nat → Parse Result}
    (tail : ∀ count, Bounded .depth available left (next count)) :
    Bounded .depth available left (size >>= next) := by
  intro tokens bound
  exact tail tokens.length tokens bound

theorem Bounded.pop_bind
    (tail : 0 < available → ∀ token, Bounded .depth (available - 1) left (next token)) :
    Bounded .depth available left (pop >>= next) := by
  intro tokens bound
  cases tokens with
  | nil => exact ⟨fun same => (nomatch same), fun _ _ same => (nomatch same)⟩
  | cons token rest =>
    rw [length_cons] at bound
    exact tail (by omega) token rest (by omega)

theorem Bounded.parserException (text : Str) :
    Bounded .depth available left (parserException text : Parse Result) :=
  Bounded.throw (by simp)

theorem Bounded.unexpected (filename : Str) (token : Token) (doing : Str) :
    Bounded .depth available left (unexpected filename token doing : Parse Result) := by
  unfold NativeParser.unexpected
  split
  · exact Bounded.parserException _
  · exact Bounded.throw (by simp)

theorem Bounded.popCheck_bind (type : TokenType) (value : Option Str)
    (tail : 0 < available → ∀ token, Bounded .depth (available - 1) left (next token)) :
    Bounded .depth available left (popCheck type value >>= next) := by
  by_cases some' : 0 < available
  · refine @Bounded.bind _ _ _ _ _ _ (fun _ => available - 1) _ _ _ ?_ (tail some')
    unfold popCheck
    apply Bounded.pop_bind
    intro _ token
    split
    · split
      · exact Bounded.throw (by simp)
      · exact Bounded.throw (by simp)
    · split
      · exact Bounded.pure _ le_rfl
      · split
        · exact Bounded.throw (by simp)
        · exact Bounded.pure _ le_rfl
  · intro tokens bound
    cases tokens with
    | nil => exact ⟨fun same => (nomatch same), fun _ _ same => (nomatch same)⟩
    | cons token rest =>
      rw [length_cons] at bound
      omega

theorem Bounded.skipComma : Bounded .depth available (fun _ => available) skipComma := by
  apply Bounded.peek_bind
  intro _ token
  split
  · apply Bounded.advance_bind
    intro _
    exact Bounded.pure _ (sub_le _ _)
  · exact Bounded.pure _ le_rfl

theorem Bounded.closeCall : Bounded .depth available (fun _ => available) closeCall := by
  apply Bounded.size_bind
  intro count
  split
  · apply Bounded.popCheck_bind
    intro _ _
    exact Bounded.pure _ (sub_le _ _)
  · exact Bounded.pure _ le_rfl

theorem Bounded.parseName (next : Token) :
    Bounded .depth available (fun _ => available) (parseName next) := by
  unfold NativeParser.parseName
  split
  · apply Bounded.peekNext_bind
    intro maybeEq
    split
    · apply Bounded.advance_bind
      intro _
      apply Bounded.advance_bind
      intro _
      exact Bounded.pure _ (by omega)
    · exact Bounded.pure _ le_rfl
  · exact Bounded.pure _ le_rfl

/-- The parser of so many tokens gets by with a depth; an expression reads at least one token. -/
structure Enough (context : Context) (depth : Nat) : Prop where
  parse : ∀ priority count, 3 * count + 2 ≤ depth →
    Bounded .depth count (fun _ => count - 1) (parse context depth priority)
  simple : ∀ count, 3 * count + 1 ≤ depth →
    Bounded .depth count (fun _ => count - 1) (parseSimple context depth)
  items : ∀ items gotComma count, 3 * count + 3 ≤ depth →
    Bounded .depth count (fun _ => count) (parseItems context depth items gotComma)
  operators : ∀ lhs max count, 3 * count + 1 ≤ depth →
    Bounded .depth count (fun _ => count) (parseInfix context depth lhs max)
  content : ∀ fields seen state count, 3 * count + 3 ≤ depth →
    Bounded .depth count (fun _ => count) (parseContent context depth fields seen state)
  field : ∀ token seen count, 0 < count → 3 * count + 2 ≤ depth →
    Bounded .depth count (fun _ => count - 1) (parseField context depth token seen)
  value : ∀ count, 3 * count + 1 ≤ depth →
    Bounded .depth count (fun _ => count) (parseValue context depth)
  key : ∀ token seen count, 0 < count → 3 * count + 1 ≤ depth →
    Bounded .depth count (fun _ => count - 1) (parseKey context depth token seen)
  localImport : ∀ count, 3 * count + 1 ≤ depth →
    Bounded .depth count (fun ast => if ast.isSome then count - 1 else count)
      (parseLocalImport context depth)
  args : ∀ first gotComma count, 3 * count + 3 ≤ depth →
    Bounded .depth count (fun _ => count) (parseArgs context depth first gotComma)

variable {context : Context} {depth : Nat}

section

variable (calls : Enough context depth)
include calls

theorem parse_enough (priority count : Nat) (enough : 3 * count + 2 ≤ depth + 1) :
    Bounded .depth count (fun _ => count - 1) (parse context (depth + 1) priority) := by
  rw [parse]
  refine Bounded.bind (calls.localImport count (by omega)) fun ast => ?_
  cases ast with
  | some ast => exact Bounded.pure _ le_rfl
  | none =>
    apply Bounded.peek_bind
    intro some' _
    have positive : 0 < count := some'
    refine Bounded.bind (calls.simple count (by omega)) fun lhs => ?_
    exact calls.operators lhs priority (count - 1) (by omega)

theorem parseSimple_enough (count : Nat) (enough : 3 * count + 1 ≤ depth + 1) :
    Bounded .depth count (fun _ => count - 1) (parseSimple context (depth + 1)) := by
  rw [parseSimple]
  apply Bounded.pop_bind
  intro some' tok
  cases type : tok.type with
  | operator =>
    simp only
    split
    · exact Bounded.parserException _
    · refine Bounded.bind (calls.parse unaryPriority (count - 1) (by omega)) fun expr => ?_
      exact Bounded.pure _ (sub_le _ _)
  | braceL =>
    apply Bounded.peek_bind
    intro _ _
    exact calls.content [] [] .firstField (count - 1) (by omega)
  | bracketL =>
    apply Bounded.peek_bind
    intro _ next
    split
    · apply Bounded.advance_bind
      intro _
      exact Bounded.pure _ (sub_le _ _)
    · refine Bounded.bind (calls.parse maxPriority (count - 1) (by omega)) fun first => ?_
      apply Bounded.peek_bind
      intro _ behind
      refine Bounded.bind Bounded.skipComma fun gotComma => ?_
      split
      · apply Bounded.advance_bind
        intro _
        apply Bounded.popCheck_bind
        intro _ _
        apply Bounded.popCheck_bind
        intro _ _
        refine Bounded.bind (calls.parse maxPriority _ (by omega)) fun range => ?_
        apply Bounded.popCheck_bind
        intro _ _
        apply Bounded.peek_bind
        intro _ _
        exact Bounded.pure _ (by omega)
      · exact (calls.items _ _ _ (by omega)).mono fun _ => sub_le _ _
  | parenL =>
    refine Bounded.bind (calls.parse maxPriority (count - 1) (by omega)) fun body => ?_
    apply Bounded.popCheck_bind
    intro _ _
    exact Bounded.pure _ (by omega)
  | float | integer | number =>
    simp only
    split
    · exact Bounded.pure _ le_rfl
    · exact Bounded.throw (by simp)
  | refString =>
    simp only
    split
    · exact Bounded.pure _ le_rfl
    · exact Bounded.throw (by simp)
  | stringSingle | stringDouble | textBlock | varString | «false» | «true» | nullLit | identifier =>
    exact Bounded.pure _ le_rfl
  | «local» => exact Bounded.throw (by simp)
  | _ => exact Bounded.unexpected _ _ _

theorem parseItems_enough (items : List Node) (gotComma : Bool) (count : Nat)
    (enough : 3 * count + 3 ≤ depth + 1) :
    Bounded .depth count (fun _ => count) (parseItems context (depth + 1) items gotComma) := by
  rw [parseItems]
  apply Bounded.peek_bind
  intro some' tok
  split
  · apply Bounded.advance_bind
    intro _
    apply Bounded.peek_bind
    intro _ _
    exact Bounded.pure _ (sub_le _ _)
  · split
    · exact Bounded.parserException _
    · refine Bounded.bind (calls.parse maxPriority count (by omega)) fun expr => ?_
      refine Bounded.bind Bounded.skipComma fun comma => ?_
      exact (calls.items _ _ (count - 1) (by omega)).mono fun _ => sub_le _ _

theorem parseInfix_enough (lhs : Node) (max count : Nat) (enough : 3 * count + 1 ≤ depth + 1) :
    Bounded .depth count (fun _ => count) (parseInfix context (depth + 1) lhs max) := by
  have stay : Bounded .depth count (fun _ => count) (pure lhs : Parse Node) :=
    Bounded.pure _ le_rfl
  rw [parseInfix]
  apply Bounded.size_bind
  intro size
  split
  · exact stay
  apply Bounded.peek_bind
  intro some' next
  cases type : next.type with
  | «in» | operator =>
    simp only
    split
    · exact stay
    split
    · exact Bounded.parserException _
    split
    · exact stay
    apply Bounded.advance_bind
    intro _
    refine Bounded.bind (calls.parse _ (count - 1) (by omega)) fun rhs => ?_
    exact (calls.operators _ max (count - 1 - 1) (by omega)).mono fun _ => by omega
  | dot =>
    simp only
    split
    · exact stay
    apply Bounded.advance_bind
    intro _
    apply Bounded.popCheck_bind
    intro _ field
    exact (calls.operators _ max _ (by omega)).mono fun _ => by omega
  | bracketL =>
    simp only
    split
    · exact stay
    apply Bounded.advance_bind
    intro _
    apply Bounded.peek_bind
    intro _ start
    split
    · exact Bounded.parserException _
    split
    · exact Bounded.parserException _
    refine Bounded.bind (calls.parse maxPriority (count - 1) (by omega)) fun target => ?_
    apply Bounded.peek_bind
    intro _ close
    split
    · exact Bounded.parserException _
    apply Bounded.advance_bind
    intro _
    apply Bounded.peek_bind
    intro _ _
    exact (calls.operators _ max _ (by omega)).mono fun _ => by omega
  | parenL =>
    simp only
    split
    · exact stay
    apply Bounded.advance_bind
    intro _
    refine Bounded.bind (calls.args true false (count - 1) (by omega)) fun arguments => ?_
    refine Bounded.bind Bounded.closeCall fun _ => ?_
    apply Bounded.peek_bind
    intro _ _
    split
    · exact Bounded.parserException _
    · exact (calls.operators _ max _ (by omega)).mono fun _ => by omega
  | braceL =>
    simp only
    split
    · exact stay
    apply Bounded.advance_bind
    intro _
    exact Bounded.parserException _
  | _ => exact stay

theorem parseContent_enough (fields : List (Node × Node)) (seen : List Str) (state : FieldState)
    (count : Nat) (enough : 3 * count + 3 ≤ depth + 1) : Bounded .depth count (fun _ => count)
      (parseContent context (depth + 1) fields seen state) := by
  rw [parseContent]
  apply Bounded.peek_bind
  intro some' tok
  split
  · apply Bounded.size_bind
    intro size
    simp only
    split
    · apply Bounded.advance_bind
      intro _
      exact Bounded.pure _ (sub_le _ _)
    · exact Bounded.pure _ le_rfl
  split
  · apply Bounded.advance_bind
    intro _
    apply Bounded.popCheck_bind
    intro _ _
    apply Bounded.popCheck_bind
    intro _ _
    refine Bounded.bind (calls.parse maxPriority _ (by omega)) fun range => ?_
    apply Bounded.popCheck_bind
    intro _ _
    exact Bounded.pure _ (by omega)
  split
  · exact Bounded.parserException _
  refine Bounded.bind (calls.field tok seen count some' (by omega)) fun found => ?_
  refine Bounded.bind Bounded.skipComma fun gotComma => ?_
  exact (calls.content _ _ _ (count - 1) (by omega)).mono fun _ => sub_le _ _

theorem parseField_enough (token : Token) (seen : List Str) (count : Nat) (some' : 0 < count)
    (enough : 3 * count + 2 ≤ depth + 1) :
    Bounded .depth count (fun _ => count - 1) (parseField context (depth + 1) token seen) := by
  rw [parseField]
  refine Bounded.bind (calls.key token seen count some' (by omega)) fun found => ?_
  apply Bounded.peek_bind
  intro _ next
  split
  · apply Bounded.advance_bind
    intro _
    refine Bounded.bind (calls.args true false _ (by omega)) fun arguments => ?_
    apply Bounded.popCheck_bind
    intro _ _
    refine Bounded.bind (calls.value _ (by omega)) fun rhs => ?_
    exact Bounded.pure _ (by omega)
  · refine Bounded.bind (calls.value _ (by omega)) fun rhs => ?_
    exact Bounded.pure _ le_rfl

theorem parseValue_enough (count : Nat) (enough : 3 * count + 1 ≤ depth + 1) :
    Bounded .depth count (fun _ => count) (parseValue context (depth + 1)) := by
  rw [parseValue]
  apply Bounded.popCheck_bind
  intro some' colon
  split
  · exact Bounded.parserException _
  · exact (calls.parse maxPriority _ (by omega)).mono fun _ => by omega

theorem parseKey_enough (token : Token) (seen : List Str) (count : Nat) (some' : 0 < count)
    (enough : 3 * count + 1 ≤ depth + 1) :
    Bounded .depth count (fun _ => count - 1) (parseKey context (depth + 1) token seen) := by
  rw [parseKey]
  split
  · split
    · exact Bounded.parserException _
    · apply Bounded.advance_bind
      intro _
      exact Bounded.pure _ le_rfl
  · split
    · split
      · apply Bounded.advance_bind
        intro _
        exact Bounded.pure _ le_rfl
      · exact Bounded.throw (by simp)
    · apply Bounded.advance_bind
      intro _
      exact Bounded.pure _ le_rfl
    · apply Bounded.advance_bind
      intro _
      refine Bounded.bind (calls.parse maxPriority (count - 1) (by omega)) fun lhs => ?_
      apply Bounded.popCheck_bind
      intro _ _
      exact Bounded.pure _ (by omega)
    · exact Bounded.unexpected _ _ _

end

theorem Bounded.load_bind (file : Str) (deep : load file ≠ .error .depth) {Result : Type}
    {left : Result → Nat} {next : Node → Parse Result}
    (tail : ∀ ast, Bounded .depth available left (next ast)) :
    Bounded .depth available left ((liftM (load file) : Parse Node) >>= next) := by
  intro tokens bound
  cases loaded : load file with
  | error error =>
    constructor
    · intro same
      rw [loaded] at deep
      exact deep (congrArg Except.error (Except.error.inj same))
    · intro result rest same
      cases same
  | ok ast => exact tail ast tokens bound

theorem parseLocalImport_enough (deep : ∀ file, context.load file ≠ .error .depth)
    (calls : Enough context depth) (count : Nat) (enough : 3 * count + 1 ≤ depth + 1) :
    Bounded .depth count (fun ast => if ast.isSome then count - 1 else count)
      (parseLocalImport context (depth + 1)) := by
  rw [parseLocalImport]
  apply Bounded.peek_bind
  intro some' start
  cases type : start.type with
  | «local» =>
    apply Bounded.advance_bind
    intro _
    apply Bounded.popCheck_bind
    intro _ idf
    apply Bounded.peek_bind
    intro _ next
    split
    · apply Bounded.advance_bind
      intro _
      refine Bounded.bind (calls.args true false _ (by omega)) fun params => ?_
      apply Bounded.advance_bind
      intro _
      apply Bounded.popCheck_bind
      intro _ _
      refine Bounded.bind (calls.parse maxPriority _ (by omega)) fun body => ?_
      apply Bounded.popCheck_bind
      intro _ _
      refine Bounded.bind (calls.parse maxPriority _ (by omega)) fun rest => ?_
      exact Bounded.pure _ (by simp; omega)
    split
    · apply Bounded.advance_bind
      intro _
      refine Bounded.bind (calls.parse maxPriority _ (by omega)) fun body => ?_
      apply Bounded.popCheck_bind
      intro _ _
      refine Bounded.bind (calls.parse maxPriority _ (by omega)) fun rest => ?_
      exact Bounded.pure _ (by simp; omega)
    · exact Bounded.parserException _
  | «import» =>
    apply Bounded.advance_bind
    intro _
    apply Bounded.pop_bind
    intro _ tok
    cases kind : tok.type with
    | stringSingle | stringDouble =>
      apply Bounded.load_bind tok.value (deep tok.value)
      intro ast
      apply Bounded.peek_bind
      intro _ _
      exact Bounded.pure _ (by simp)
    | _ => exact Bounded.parserException _
  | function =>
    apply Bounded.advance_bind
    intro _
    apply Bounded.pop_bind
    intro _ next
    split
    · refine Bounded.bind (calls.args true false _ (by omega)) fun params => ?_
      apply Bounded.advance_bind
      intro _
      refine Bounded.bind (calls.parse maxPriority _ (by omega)) fun body => ?_
      exact Bounded.pure _ (by simp; omega)
    · exact Bounded.parserException _
  | «if» =>
    apply Bounded.advance_bind
    intro _
    refine Bounded.bind (calls.parse maxPriority _ (by omega)) fun cond => ?_
    apply Bounded.popCheck_bind
    intro _ _
    refine Bounded.bind (calls.parse maxPriority _ (by omega)) fun branchTrue => ?_
    apply Bounded.peek_bind
    intro _ next
    split
    · apply Bounded.advance_bind
      intro _
      refine Bounded.bind (calls.parse maxPriority _ (by omega)) fun branchFalse => ?_
      exact Bounded.pure _ (by simp; omega)
    · exact Bounded.pure _ (by simp; omega)
  | _ => exact Bounded.pure _ (by simp)

theorem parseArgs_enough (calls : Enough context depth) (first gotComma : Bool) (count : Nat)
    (enough : 3 * count + 3 ≤ depth + 1) :
    Bounded .depth count (fun _ => count) (parseArgs context (depth + 1) first gotComma) := by
  rw [parseArgs]
  apply Bounded.peek_bind
  intro some' next
  split
  · exact Bounded.pure _ le_rfl
  split
  · exact Bounded.parserException _
  refine Bounded.bind (Bounded.parseName next) fun names => ?_
  refine Bounded.bind (calls.parse maxPriority count (by omega)) fun expr => ?_
  refine Bounded.bind Bounded.skipComma fun comma => ?_
  refine Bounded.bind (calls.args false comma (count - 1) (by omega)) fun rest => ?_
  exact Bounded.pure _ (sub_le _ _)

theorem enough (deep : ∀ file, context.load file ≠ .error .depth) (depth : Nat) :
    Enough context depth := by
  induction depth with
  | zero =>
    constructor
    all_goals intros
    all_goals omega
  | succ depth calls =>
    exact {
      parse := parse_enough calls
      simple := parseSimple_enough calls
      items := parseItems_enough calls
      operators := parseInfix_enough calls
      content := parseContent_enough calls
      field := parseField_enough calls
      value := parseValue_enough calls
      key := parseKey_enough calls
      localImport := parseLocalImport_enough deep calls
      args := parseArgs_enough calls }

theorem parseTokens_ne_depth (deep : ∀ file, load file ≠ .error .depth) (tokens : List Token) :
    parseTokens filename load tokens ≠ .error .depth := by
  have bounded := (@enough ⟨filename, load⟩ deep (depthFor tokens.length)).parse
    maxPriority tokens.length le_rfl
  obtain ⟨noDepth, -⟩ := bounded tokens le_rfl
  intro same
  apply noDepth
  unfold parseTokens at same
  cases ran : NativeParser.parse ⟨filename, load⟩ (depthFor tokens.length) maxPriority tokens with
  | error error =>
    rw [ran] at same
    exact congrArg Except.error (Except.error.inj same)
  | ok pair =>
    rw [ran] at same
    cases same

end Depth

/-! ## The graph of imports -/

theorem parseTokens_related (filename : Str) (left right : Str → Except ParseError Node)
    (tokens : List Token) : (∃ first second, parseTokens filename left tokens = .ok first ∧
      parseTokens filename right tokens = .ok second) ∨
    ∃ first second, Stop left right first second ∧
      (∀ error, first = some error → parseTokens filename left tokens = .error error) ∧
      ∀ error, second = some error → parseTokens filename right tokens = .error error := by
  have runs := (sameRuns filename left right (depthFor tokens.length)).parse maxPriority tokens
  have failed : ∀ load error,
      parse ⟨filename, load⟩ (depthFor tokens.length) maxPriority tokens = .error error →
      parseTokens filename load tokens = .error error := by
    intro load error same
    rw [parseTokens, same]
    rfl
  rcases runs with ⟨first, second, rest, ranLeft, ranRight, -⟩ |
    ⟨first, second, stops, failedLeft, failedRight⟩
  · left
    refine ⟨first, second, ?_, ?_⟩
    · rw [parseTokens, ranLeft]
      rfl
    · rw [parseTokens, ranRight]
      rfl
  · exact .inr ⟨first, second, stops, fun error same => failed _ _ (failedLeft error same),
      fun error same => failed _ _ (failedRight error same)⟩

/-- An import that is not granted, as an error that no parser has of its own. -/
def refused (file : Str) : ParseError := .cycle [⟨file, []⟩]

/-- Imports of which only some are granted. -/
def probe (granted : Str → Bool) (file : Str) : Except ParseError Node :=
  if granted file then .ok .null else .error (refused file)

/-- A source asks for an import: its parser, granted some imports, stops for lack of this one. -/
def Asks (filename : Str) (tokens : List Token) (file : Str) : Prop :=
  ∃ granted, parseTokens filename (probe granted) tokens = .error (refused file)

theorem parseTokens_error (failed : parseTokens filename load tokens = .error error) :
    (∃ granted, Own error ∧ parseTokens filename (probe granted) tokens = .error error) ∨
      ∃ file, Asks filename tokens file ∧ load file = .error error := by
  let granted : Str → Bool := fun file => (load file).toBool
  have unique : ∀ other, parseTokens filename load tokens = .error other → other = error :=
    fun other same => Except.error.inj (same.symm.trans failed)
  rcases parseTokens_related filename load (probe granted) tokens with
    ⟨first, second, ranLeft, -⟩ | ⟨first, second, stops, failedLeft, failedRight⟩
  · rw [ranLeft] at failed
    cases failed
  cases stops with
  | own own =>
    left
    have same := unique _ (failedLeft _ rfl)
    rw [same] at own failedRight
    exact ⟨granted, own, failedRight _ rfl⟩
  | @both file first second loadFails probeFails =>
    right
    have same := unique _ (failedLeft _ rfl)
    rw [same] at loadFails
    have notGranted : granted file = false := by simp [granted, loadFails, Except.toBool]
    have isRefused : second = refused file := by
      rw [probe, notGranted] at probeFails
      exact (Except.error.inj probeFails).symm
    exact ⟨file, ⟨granted, isRefused ▸ failedRight _ rfl⟩, loadFails⟩
  | @left file error ast loadFails loaded =>
    have notGranted : granted file = false := by simp [granted, loadFails, Except.toBool]
    rw [probe, notGranted] at loaded
    cases loaded
  | @right file error ast loaded probeFails =>
    have isGranted : granted file = true := by simp [granted, loaded, Except.toBool]
    rw [probe, isGranted] at probeFails
    cases probeFails

theorem load_of_parseTokens_error
    (granted : parseTokens filename (fun _ => .ok .null) tokens = .ok ast)
    (failed : parseTokens filename load tokens = .error error) :
    ∃ file, Asks filename tokens file ∧ load file = .error error := by
  rcases parseTokens_error failed with ⟨some', own, probed⟩ | asked
  · exfalso
    rcases parseTokens_related filename (probe some') (fun _ => .ok .null) tokens with
      ⟨first, second, ranLeft, -⟩ | ⟨first, second, stops, failedLeft, failedRight⟩
    · rw [ranLeft] at probed
      cases probed
    cases stops with
    | own _ =>
      have fails := failedRight _ rfl
      rw [granted] at fails
      cases fails
    | both _ fails => cases fails
    | @left file other ast probeFails loaded =>
      have same : other = error := Except.error.inj ((failedLeft _ rfl).symm.trans probed)
      rw [probe] at probeFails
      split at probeFails
      · cases probeFails
      · rw [← same, ← Except.error.inj probeFails] at own
        exact own
    | right _ fails => cases fails
  · exact asked

theorem load_of_parseTokens_ok (parsed : parseTokens filename load tokens = .ok ast) {file : Str}
    (asks : Asks filename tokens file) : ∃ imported, load file = .ok imported := by
  obtain ⟨granted, probed⟩ := asks
  have noError : ∀ error, parseTokens filename load tokens ≠ .error error := by
    intro error same
    rw [parsed] at same
    cases same
  rcases parseTokens_related filename load (probe granted) tokens with
    ⟨first, second, -, ranRight⟩ | ⟨first, second, stops, failedLeft, failedRight⟩
  · rw [ranRight] at probed
    cases probed
  cases stops with
  | own _ => exact absurd (failedLeft _ rfl) (noError _)
  | both _ _ => exact absurd (failedLeft _ rfl) (noError _)
  | left _ _ => exact absurd (failedLeft _ rfl) (noError _)
  | @right other error imported loaded probeFails =>
    have same : error = refused file := Except.error.inj ((failedRight _ rfl).symm.trans probed)
    have isRefused : error = refused other := by
      rw [probe] at probeFails
      split at probeFails
      · cases probeFails
      · exact (Except.error.inj probeFails).symm
    have files : other = file := by
      have both := isRefused.symm.trans same
      simpa [refused] using both
    exact ⟨imported, files ▸ loaded⟩

section Graph

-- the contents of the files at all locations, and the locations that imports mean
variable (files : FileLocation → Str) (resolve : FileLocation → Str → Option FileLocation)

/-- The file at a location. -/
def fileAt (location : FileLocation) : FileData := ⟨location, files location⟩

/-- The reader of these files. -/
def readerOf : Reader := fun location file => (resolve location file).map (fileAt files)

/-- The tokens of the file at a location, with its name. -/
def tokensAt (location : FileLocation) : Option (Str × List Token) := do
  let filename ← location.toString
  let tokens ← (Lexer.tokenize filename (files location)).toOption
  some (filename, tokens)

/-- A file imports another one. -/
def ImportsFile (location other : FileLocation) : Prop :=
  ∃ filename tokens file, tokensAt files location = some (filename, tokens) ∧
    Asks filename tokens file ∧ resolve location file = some other

/-- A jst file: it can be parsed if all its imports are granted, and all of them can be found. -/
def IsJstFile (location : FileLocation) : Prop :=
  ∃ filename tokens, tokensAt files location = some (filename, tokens) ∧
    (∃ ast, parseTokens filename (fun _ => .ok .null) tokens = .ok ast) ∧
    ∀ file, Asks filename tokens file → (resolve location file).isSome = true

/-- What an import in a file is parsed to. -/
def loadAt (nesting : Nat) (chain : List FileLocation) (location : FileLocation) (file : Str) :
    Except ParseError Node :=
  match resolve location file with
  | some other =>
    parseData (readerOf files resolve) nesting (chain ++ [location]) (fileAt files other)
  | none => .error (.message (lit "Parser error: Failed to import file"))

variable {files resolve}

theorem parseData_cases (nesting : Nat) (chain : List FileLocation) (location : FileLocation) :
    (tokensAt files location = none ∧ ∃ error, Own error ∧ error ≠ .depth ∧
      ∀ nesting, parseData (readerOf files resolve) (nesting + 1) chain (fileAt files location) =
        .error error) ∨ ∃ filename tokens, tokensAt files location = some (filename, tokens) ∧
      ((location ∈ chain ∧ ∀ nesting,
        parseData (readerOf files resolve) (nesting + 1) chain (fileAt files location) =
          .error (.cycle (chain.dropWhile (· ≠ location)))) ∨ (location ∉ chain ∧
        parseData (readerOf files resolve) (nesting + 1) chain (fileAt files location) =
          parseTokens filename (loadAt files resolve nesting chain location) tokens)) := by
  cases named : location.toString with
  | none =>
    left
    refine ⟨by simp [tokensAt, named], .terminate, trivial, by simp, fun nesting => ?_⟩
    simp [parseData, fileAt, named]
  | some filename =>
    cases scanned : Lexer.tokenize filename (files location) with
    | error text =>
      left
      refine ⟨by simp [tokensAt, named, scanned, Except.toOption], .message text, trivial, by simp,
        fun nesting => ?_⟩
      simp [parseData, fileAt, named, scanned]
    | ok tokens =>
      right
      refine ⟨filename, tokens, by simp [tokensAt, named, scanned, Except.toOption], ?_⟩
      by_cases member : location ∈ chain
      · left
        refine ⟨member, fun nesting => ?_⟩
        simp only [parseData, fileAt, named, scanned]
        exact if_pos member
      · right
        refine ⟨member, ?_⟩
        simp only [parseData, fileAt, named, scanned]
        refine (if_neg member).trans (congrArg (parseTokens filename · tokens) (funext fun file => ?_))
        unfold loadAt readerOf
        cases resolve location file <;> rfl

theorem parseData_nesting (locations : Finset FileLocation)
    (closed : ∀ location ∈ locations, ∀ file other, resolve location file = some other →
      other ∈ locations) (distinct : chain.Nodup) (inside : ∀ other ∈ chain, other ∈ locations)
    (here : location ∈ locations) {more : Nat} (enough : locations.card < nesting + chain.length)
    (moreEnough : locations.card < more + chain.length) :
    parseData (readerOf files resolve) nesting chain (fileAt files location) ≠ .error .depth ∧
      parseData (readerOf files resolve) nesting chain (fileAt files location) =
        parseData (readerOf files resolve) more chain (fileAt files location) := by
  have bound : chain.length ≤ locations.card := by
    rw [← List.toFinset_card_of_nodup distinct]
    exact Finset.card_le_card fun other member => inside other (List.mem_toFinset.mp member)
  induction nesting generalizing chain location more with
  | zero => omega
  | succ nesting ih =>
    cases more with
    | zero => omega
    | succ more =>
      have first := @parseData_cases files resolve nesting chain location
      have second := @parseData_cases files resolve more chain location
      rcases first with ⟨noTokens, error, -, noDepth, failed⟩ |
        ⟨filename, tokens, scanned, ⟨member, failed⟩ | ⟨fresh, parsed⟩⟩
      · rw [failed, failed]
        exact ⟨fun same => noDepth (Except.error.inj same), rfl⟩
      · rw [failed, failed]
        exact ⟨fun same => by simp at same, rfl⟩
      · rcases second with ⟨noTokens, -⟩ | ⟨name, list, scanned', ⟨member, -⟩ | ⟨-, parsed'⟩⟩
        · rw [scanned] at noTokens
          cases noTokens
        · exact absurd member fresh
        · rw [scanned] at scanned'
          obtain ⟨rfl, rfl⟩ := Prod.mk.inj (some.inj scanned')
          have distinct' : (chain ++ [location]).Nodup := by
            simp [nodup_append, distinct]
            intro other member same
            rw [same] at member
            exact fresh member
          have inside' : ∀ other ∈ chain ++ [location], other ∈ locations := by
            intro other member
            rcases mem_append.mp member with early | last
            · exact inside other early
            · rw [mem_singleton.mp last]
              exact here
          have bound' : (chain ++ [location]).length ≤ locations.card := by
            rw [← List.toFinset_card_of_nodup distinct']
            exact Finset.card_le_card fun other member => inside' other (List.mem_toFinset.mp member)
          have later : ∀ file, loadAt files resolve nesting chain location file ≠ .error .depth ∧
              loadAt files resolve nesting chain location file =
                loadAt files resolve more chain location file := by
            intro file
            unfold loadAt
            cases found : resolve location file with
            | none => exact ⟨fun same => by simp at same, rfl⟩
            | some other =>
              refine ih distinct' inside' (closed location here file other found) ?_ ?_ bound'
              · simp only [length_append, length_cons, length_nil]
                omega
              · simp only [length_append, length_cons, length_nil]
                omega
          rw [parsed, parsed', funext fun file => (later file).2]
          refine ⟨parseTokens_ne_depth (fun file => ?_) tokens, rfl⟩
          rw [← (later file).2]
          exact (later file).1

theorem cycle_of_parseData {cycle : List FileLocation}
    (failed : parseData (readerOf files resolve) nesting chain (fileAt files location) =
      .error (.cycle cycle)) : ∃ other, ReflTransGen (ImportsFile files resolve) location other ∧
      (other ∈ chain ∨ TransGen (ImportsFile files resolve) other other) := by
  induction nesting generalizing chain location with
  | zero => cases failed
  | succ nesting ih =>
    rcases @parseData_cases files resolve nesting chain location with
      ⟨-, error, own, -, other⟩ | ⟨filename, tokens, scanned, ⟨member, -⟩ | ⟨-, parsed⟩⟩
    · rw [other] at failed
      rw [Except.error.inj failed] at own
      exact own.elim
    · exact ⟨location, .refl, .inl member⟩
    · rw [parsed] at failed
      rcases parseTokens_error failed with ⟨-, own, -⟩ | ⟨file, asks, loadFails⟩
      · exact own.elim
      · unfold loadAt at loadFails
        cases found : resolve location file with
        | none =>
          rw [found] at loadFails
          cases loadFails
        | some next =>
          rw [found] at loadFails
          have step : ImportsFile files resolve location next :=
            ⟨filename, tokens, file, scanned, asks, found⟩
          obtain ⟨other, path, member | loop⟩ := ih loadFails
          · rcases mem_append.mp member with early | last
            · exact ⟨other, .head step path, .inl early⟩
            · rw [mem_singleton.mp last] at path
              exact ⟨location, .refl, .inr (.head' step path)⟩
          · exact ⟨other, .head step path, .inr loop⟩

section

variable
  (parsed : parseData (readerOf files resolve) nesting chain (fileAt files location) = .ok ast)
include parsed

theorem parseData_of_imports (step : ImportsFile files resolve location other) :
    ∃ fewer imported, parseData (readerOf files resolve) fewer (chain ++ [location])
      (fileAt files other) = .ok imported := by
  cases nesting with
  | zero => cases parsed
  | succ nesting =>
    obtain ⟨filename, tokens, file, scanned, asks, found⟩ := step
    rcases @parseData_cases files resolve nesting chain location with
      ⟨noTokens, -⟩ | ⟨name, list, scanned', ⟨-, failed⟩ | ⟨-, same⟩⟩
    · rw [scanned] at noTokens
      cases noTokens
    · rw [failed] at parsed
      cases parsed
    · rw [scanned] at scanned'
      obtain ⟨rfl, rfl⟩ := Prod.mk.inj (some.inj scanned')
      rw [same] at parsed
      obtain ⟨imported, loaded⟩ := load_of_parseTokens_ok parsed asks
      rw [loadAt, found] at loaded
      exact ⟨nesting, imported, loaded⟩

theorem parseData_of_reaches (path : ReflTransGen (ImportsFile files resolve) location other) :
    ∃ fewer way imported, chain ⊆ way ∧ (location = other ∨ location ∈ way) ∧
      parseData (readerOf files resolve) fewer way (fileAt files other) = .ok imported := by
  induction path with
  | refl => exact ⟨nesting, chain, ast, fun _ member => member, .inl rfl, parsed⟩
  | @tail middle other _ step ih =>
    obtain ⟨fewer, way, imported, early, on, here⟩ := ih
    obtain ⟨last, next, there⟩ := parseData_of_imports here step
    refine ⟨last, way ++ [middle], next, fun _ member => mem_append_left _ (early member),
      .inr ?_, there⟩
    rcases on with rfl | member
    · exact mem_append_right _ (mem_singleton.mpr rfl)
    · exact mem_append_left _ member

theorem acyclic_of_parseData (path : ReflTransGen (ImportsFile files resolve) location other) :
    ¬TransGen (ImportsFile files resolve) other other := by
  intro loop
  obtain ⟨fewer, way, imported, -, -, here⟩ := parseData_of_reaches parsed path
  obtain ⟨middle, step, back⟩ := TransGen.head'_iff.mp loop
  obtain ⟨less, next, there⟩ := parseData_of_imports here step
  obtain ⟨last, longer, final, early, -, again⟩ := parseData_of_reaches there back
  have member : other ∈ longer := early (mem_append_right _ (mem_singleton.mpr rfl))
  cases last with
  | zero => cases again
  | succ last =>
    rcases @parseData_cases files resolve last longer other with
      ⟨-, error, -, -, failed⟩ | ⟨-, -, -, ⟨-, failed⟩ | ⟨fresh, -⟩⟩
    · rw [failed] at again
      cases again
    · rw [failed] at again
      cases again
    · exact fresh member

end

theorem parseData_error (jst : ∀ other, ReflTransGen (ImportsFile files resolve) location other →
      IsJstFile files resolve other)
    (failed : parseData (readerOf files resolve) nesting chain (fileAt files location) =
      .error error) : error = .depth ∨ ∃ cycle, error = .cycle cycle := by
  induction nesting generalizing chain location with
  | zero => exact .inl (Except.error.inj failed).symm
  | succ nesting ih =>
    obtain ⟨filename, tokens, scanned, ⟨ast, granted⟩, found⟩ := jst location .refl
    rcases @parseData_cases files resolve nesting chain location with
      ⟨noTokens, -⟩ | ⟨name, list, scanned', ⟨-, closes⟩ | ⟨-, parsed⟩⟩
    · rw [scanned] at noTokens
      cases noTokens
    · rw [closes] at failed
      exact .inr ⟨_, (Except.error.inj failed).symm⟩
    · rw [scanned] at scanned'
      obtain ⟨rfl, rfl⟩ := Prod.mk.inj (some.inj scanned')
      rw [parsed] at failed
      obtain ⟨file, asks, loadFails⟩ := load_of_parseTokens_error granted failed
      have isFound := found file asks
      cases resolved : resolve location file with
      | none =>
        rw [resolved] at isFound
        cases isFound
      | some other =>
        rw [loadAt, resolved] at loadFails
        have step : ImportsFile files resolve location other :=
          ⟨filename, tokens, file, scanned, asks, resolved⟩
        exact ih (fun last path => jst last (.head step path)) loadFails

/-- Parsing a file with all its imports ends, however deeply more files could be nested. It fails
with a cycle of imports only if some file that is reached reaches itself, and then it does fail;
where all files that are reached are jst files, it fails with a cycle exactly then. -/
theorem parseData_imports (files : FileLocation → Str)
    (resolve : FileLocation → Str → Option FileLocation) (locations : Finset FileLocation)
    (closed : ∀ location ∈ locations, ∀ file other, resolve location file = some other →
      other ∈ locations) {root : FileLocation} (here : root ∈ locations) :
    ∃ result, result ≠ .error .depth ∧
      (∀ nesting, locations.card < nesting →
        parseData (readerOf files resolve) nesting [] (fileAt files root) = result) ∧
      ((∃ cycle, result = .error (.cycle cycle)) →
        ∃ other, ReflTransGen (ImportsFile files resolve) root other ∧
          TransGen (ImportsFile files resolve) other other) ∧
      ((∃ other, ReflTransGen (ImportsFile files resolve) root other ∧
          TransGen (ImportsFile files resolve) other other) →
        (∀ ast, result ≠ .ok ast) ∧
          ((∀ other, ReflTransGen (ImportsFile files resolve) root other →
            IsJstFile files resolve other) → ∃ cycle, result = .error (.cycle cycle))) := by
  let result := parseData (readerOf files resolve) (locations.card + 1) [] (fileAt files root)
  have nested : ∀ nesting, locations.card < nesting → result ≠ .error .depth ∧
      result = parseData (readerOf files resolve) nesting [] (fileAt files root) := by
    intro nesting enough
    exact parseData_nesting locations closed nodup_nil (fun _ member => (nomatch member))
      here (by simp) (by simpa using enough)
  have noDepth := (nested (locations.card + 1) (Nat.lt_succ_self _)).1
  refine ⟨result, noDepth, fun nesting enough => (nested nesting enough).2.symm, ?_, ?_⟩
  · intro ⟨cycle, failed⟩
    obtain ⟨other, path, member | loop⟩ := cycle_of_parseData failed
    · cases member
    · exact ⟨other, path, loop⟩
  · intro ⟨other, path, loop⟩
    have noAst : ∀ ast, result ≠ .ok ast := fun ast parsed =>
      acyclic_of_parseData parsed path loop
    refine ⟨noAst, fun jst => ?_⟩
    cases parsed : result with
    | ok ast => exact absurd parsed (noAst ast)
    | error error =>
      rcases parseData_error jst parsed with rfl | ⟨cycle, rfl⟩
      · exact absurd parsed noDepth
      · exact ⟨cycle, rfl⟩

/-- A file that imports itself. -/
def selfish : FileLocation := ⟨[], [lit "a"]⟩

/-- Its contents. -/
def selfishFiles (_ : FileLocation) : Str := lit "(import 'a')"

theorem parseData_imports_selfish :
    ∃ cycle, ∀ nesting, 1 < nesting →
      parseData (readerOf selfishFiles (fun _ _ => some selfish)) nesting []
        (fileAt selfishFiles selfish) = .error (.cycle cycle) := by
  have step : ImportsFile selfishFiles (fun _ _ => some selfish) selfish selfish :=
    ⟨_, _, lit "a", rfl, ⟨fun _ => false, rfl⟩, rfl⟩
  have jst : IsJstFile selfishFiles (fun _ _ => some selfish) selfish :=
    ⟨_, _, rfl, ⟨_, rfl⟩, fun _ _ => rfl⟩
  obtain ⟨result, -, parsed, -, cyclic⟩ :=
    parseData_imports selfishFiles (fun _ _ => some selfish) {selfish}
      (fun _ _ _ _ found => by simpa using (some.inj found).symm)
      (Finset.mem_singleton_self selfish)
  obtain ⟨cycle, failed⟩ := (cyclic ⟨selfish, .refl, .single step⟩).2 fun other path => by
    cases path with
    | refl => exact jst
    | tail _ last =>
      obtain ⟨_, _, _, _, _, found⟩ := last
      rw [← some.inj found]
      exact jst
  exact ⟨cycle, fun nesting enough => (parsed nesting (by simpa using enough)).trans failed⟩

end Graph

end Jst.Verif.Imports
