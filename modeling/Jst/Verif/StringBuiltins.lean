import Jst.Lang.StringBuiltins
import Jst.Verif.Denotation
/-!
# Static and runtime functions on strings

What a built-in function on strings computes while compiling is compared with what the call that it
would leave evaluates to. `join` puts a separator in front of an item if the text so far is not
empty, which is not the same as putting one between the items: the two differ if the first item is
empty.
-/
namespace Jst.Verif.StringBuiltins

open Jst.Expression Jst.Expression.Evaluator Jst.Lang Jst.Lang.BuiltIn Jst.Verif.Denotation

variable {library : Library} {imports : Option (List (Str × ExpressionFunction))}
  {env : Configuration}

variable {branches : Branches} {args : Params} {separator : Option Node}

section Texts

theorem intercalate_eq (sep text : Str) (texts : List Str) :
    sep.intercalate (text :: texts) = text ++ texts.flatMap (sep ++ ·) := by
  induction texts generalizing text with
  | nil => simp
  | cons next texts step =>
    rw [List.intercalate_cons_cons, step, flatMap_cons]
    simp

theorem foldl_join (sep out : Str) (texts : List Str) (started : out ≠ []) :
    texts.foldl (fun out text => (if out.isEmpty then out else out ++ sep) ++ text) out =
      out ++ texts.flatMap (sep ++ ·) := by
  induction texts generalizing out with
  | nil => simp
  | cons text texts step =>
    have goesOn : (if out.isEmpty then out else out ++ sep) ++ text = out ++ (sep ++ text) := by
      simp [started]
    rw [foldl_cons, goesOn, step _ (by simp [started]), flatMap_cons]
    simp

theorem joinTexts_of_ne_nil (sep : Str) {text : Str} (texts : List Str) (started : text ≠ []) :
    joinTexts sep (text :: texts) = sep.intercalate (text :: texts) := by
  rw [intercalate_eq, joinTexts, foldl_cons]
  exact foldl_join sep text texts started

theorem joinTexts_nil_cons (sep : Str) (texts : List Str) :
    joinTexts sep ([] :: texts) = joinTexts sep texts := rfl

theorem length_joinTexts_le (sep : Str) {texts : List Str} (some' : texts ≠ []) :
    (joinTexts sep texts).length + sep.length ≤ (texts.flatMap (sep ++ ·)).length := by
  induction texts with
  | nil => exact absurd rfl some'
  | cons text texts step =>
    rw [flatMap_cons, length_append, length_append]
    by_cases started : text = []
    · subst started
      rw [joinTexts_nil_cons]
      cases texts with
      | nil => simp [joinTexts]
      | cons next texts =>
        have rest := step (by simp)
        omega
    · rw [joinTexts_of_ne_nil sep texts started, intercalate_eq, length_append]
      omega

theorem joinTexts_nil (texts : List Str) : joinTexts [] texts = texts.flatMap ([] ++ ·) := by
  induction texts with
  | nil => rfl
  | cons text texts step =>
    by_cases started : text = []
    · subst started
      rw [joinTexts_nil_cons, step]
      rfl
    · rw [joinTexts_of_ne_nil [] texts started, intercalate_eq]
      rfl

theorem joinTexts_eq_iff (sep : Str) (texts : List Str) :
    joinTexts sep texts = sep.intercalate texts ↔
      sep = [] ∨ texts.length ≤ 1 ∨ texts.head? ≠ some [] := by
  cases texts with
  | nil => simp [joinTexts]
  | cons text texts =>
    by_cases started : text = []
    · subst started
      rw [joinTexts_nil_cons, intercalate_eq, nil_append]
      cases texts with
      | nil => simp [joinTexts]
      | cons next texts =>
        have shorter : (joinTexts sep (next :: texts)).length + sep.length ≤ _ :=
          length_joinTexts_le sep (by simp)
        constructor
        · intro same
          rw [same] at shorter
          exact .inl (List.length_eq_zero_iff.mp (by omega))
        · intro fine
          have empty : sep = [] := by simpa using fine
          rw [empty]
          exact joinTexts_nil _
    · simp [joinTexts_of_ne_nil sep texts started, started]

theorem shellQuote_eq (arg : Str) : shellQuote arg = Functions.shellQuote arg := by
  have replaced : replaceQuotes arg =
      arg.flatMap fun char => if char = Functions.quote then lit "'\\''" else [char] := by
    induction arg with
    | nil => rfl
    | cons char arg step =>
      rw [replaceQuotes, flatMap_cons, step]
      by_cases isQuote : char = 39
      · rw [if_pos isQuote, if_pos (show char = Functions.quote from isQuote)]
      · rw [if_neg isQuote, if_neg (show ¬char = Functions.quote from isQuote)]
        rfl
  rw [shellQuote, replaced]
  rfl

theorem shellQuote_ne_nil (arg : Str) : shellQuote arg ≠ [] := by
  have quoted : shellQuote arg = 39 :: (replaceQuotes arg ++ lit "'") := rfl
  rw [quoted]
  simp

end Texts

section Items

theorem stringItems_literals (builtin kind : String) (texts : List Str) :
    stringItems builtin kind (texts.map .string) = .ok (some texts) := by
  induction texts with
  | nil => rfl
  | cons text texts step =>
    rw [map_cons, stringItems, if_neg (by simp [Node.evalType])]
    simp only [step]
    rfl

theorem literals_of_stringItems {builtin kind : String} {items : List Node} {texts : List Str}
    (success : stringItems builtin kind items = .ok (some texts)) : items = texts.map .string := by
  induction items generalizing texts with
  | nil => cases success; rfl
  | cons item items step =>
    unfold stringItems at success
    split at success
    · cases success
    · cases item with
      | string text =>
        cases rest : stringItems builtin kind items with
        | error message => simp only [rest] at success; cases success
        | ok result =>
          simp only [rest] at success
          cases result with
          | none => cases success
          | some others =>
            cases success
            rw [step rest]
            rfl
      | _ => cases success

theorem denote_strings (texts : List Str) : denote library imports (.list (texts.map .string)) env =
      some (.list (texts.map .string)) := by
  have items : (texts.map Node.string).mapM (fun item => denote library imports item env) =
      some (texts.map .string) := by
    rw [List.mapM_map, ← Loops.mapM_some texts Value.string]
    exact Loops.mapM_congr fun text _ => denote_string text
  rw [denote_list, items]
  rfl

theorem mapM_asString (texts : List Str) :
    (texts.map Value.string).mapM Value.asString = some texts := by
  rw [List.mapM_map]
  exact (Loops.mapM_some texts id).trans (congrArg some (List.map_id texts))

end Items

section Builtins

/-- The built-in functions on strings. -/
inductive StringBuiltin where
  | join | joinCmd | escapeChars | changeEnding | basename

/-- Call a built-in function on strings. -/
def StringBuiltin.call : StringBuiltin → Params → Except Str Branches
  | join => BuiltIn.join
  | joinCmd => BuiltIn.joinCmd
  | escapeChars => BuiltIn.escapeChars
  | changeEnding => BuiltIn.changeEnding
  | basename => BuiltIn.basename

/-- The string that is computed while compiling is the value of what would be left for the
evaluation, in every configuration in which that has a value. -/
def SameString (library : Library) (imports : Option (List (Str × ExpressionFunction)))
    (branches : Branches) : Prop :=
  ∀ text, branches.static = .ok (some (.string text)) → ∀ env value,
    denote library imports branches.fallback env = some value → value = .string text

theorem texts_of_static {builtin kind : String} {items : List Node} {joined : List Str → Str}
    {text : Str} (static : (stringItems builtin kind items >>= fun result =>
      pure (result.map fun texts => Node.string (joined texts))) = .ok (some (.string text))) :
    ∃ texts, items = texts.map .string ∧ joined texts = text := by
  cases success : stringItems builtin kind items with
  | error message => rw [success] at static; cases static
  | ok result =>
    rw [success] at static
    cases result with
    | none => cases static
    | some texts =>
      cases static
      exact ⟨texts, literals_of_stringItems success, rfl⟩

theorem basename_same (called : BuiltIn.basename args = .ok branches) :
    SameString library imports branches := by
  obtain ⟨named, -, called⟩ := of_withParameters called
  obtain ⟨path, -, called⟩ := of_retrieve called
  cases called
  intro text static env value success
  cases path with
  | string path =>
    cases static
    obtain ⟨expr, written, result⟩ := of_denote_runtimeCall success
      (show ("basename", unaryExpr Functions.baseName) ∈ _ by simp [builtInFunctions]) (by simp)
    rw [unaryExpr, written.evalArgument_eq (mem_singleton_self _), denote_string] at result
    cases result
    rfl
  | _ => cases static

theorem joinCmd_same (called : BuiltIn.joinCmd args = .ok branches) :
    SameString library imports branches := by
  obtain ⟨named, -, called⟩ := of_withParameters called
  obtain ⟨items, -, called⟩ := of_retrieve called
  cases called
  intro text static env value success
  cases items with
  | list items =>
    obtain ⟨texts, literals, same⟩ :=
      @texts_of_static _ _ _ (fun texts => joinTexts (lit " ") (texts.map shellQuote)) _ static
    rw [← same]
    rw [literals] at success
    obtain ⟨expr, written, result⟩ := of_denote_runtimeCall success
      (show ("join_cmd", joinCmdExpr) ∈ _ by simp [builtInFunctions]) (by simp)
    rw [joinCmdExpr, written.evalGet_eq (mem_singleton_self _) rfl, denote_strings] at result
    have joined : Functions.join true false (.list (texts.map .string)) (lit " ") =
        some (.string ((lit " ").intercalate (texts.map Functions.shellQuote))) := by
      simp only [Functions.join, mapM_asString]
      rfl
    rw [bind_eq_bind, bind_some, joined] at result
    cases result
    have quoted : texts.map Functions.shellQuote = texts.map shellQuote :=
      map_congr_left fun arg _ => (shellQuote_eq arg).symm
    rw [quoted, (joinTexts_eq_iff _ _).mpr (.inr (.inr ?_))]
    cases texts with
    | nil => simp
    | cons arg texts => simp [shellQuote_ne_nil arg]
  | _ => cases static

theorem changeEnding_same (called : BuiltIn.changeEnding args = .ok branches) :
    SameString library imports branches := by
  obtain ⟨named, -, called⟩ := of_withParameters called
  obtain ⟨path, -, called⟩ := of_retrieve called
  cases called
  intro text static env value success
  obtain ⟨expr, written, result⟩ := of_denote_runtimeCall success
    (show ("change_ending", changeEndingExpr) ∈ _ by simp [builtInFunctions])
    (by cases lookupParam (lit "ending") named <;> simp [optionalArg])
  cases path with
  | string path =>
    cases ending : (lookupParam (lit "ending") named).getD (.string []) with
    | string ending' =>
      rw [ending] at static
      cases static
      have evaluated : evalGet expr "ending" (.string []) (evaluate library imports) env =
          some (.string ending') := by
        rw [evalGet_optional written (by decide) ⟨ending', ending⟩ rfl, ending, denote_string]
        · intro arg given
          simp [given, optionalArg]
        · intro missing
          simp [missing, optionalArg]
      rw [changeEndingExpr, evaluated, written.evalGet_eq (mem_cons_self) rfl,
        denote_string] at result
      cases result
      rfl
    | _ => rw [ending] at static; cases static
  | _ => cases static

theorem escapeChars_eq (string chars charPrefix : Str) :
    Functions.escapeChars (.string string) (.string chars) (.string charPrefix) =
      some (.string (string.flatMap fun char =>
        (if chars.contains char then charPrefix else []) ++ [char])) := by
  have pieces : string.mapM (fun char => do
      if (← (Value.string chars).asString).contains char then
        return (← (Value.string charPrefix).asString) ++ [char]
      else return [char]) =
      some (string.map fun char => (if chars.contains char then charPrefix else []) ++ [char]) := by
    rw [← Loops.mapM_some]
    refine Loops.mapM_congr fun char _ => ?_
    by_cases escaped : chars.contains char
    · simp only [Value.asString, bind_eq_bind, bind_some, if_pos escaped]
      rfl
    · simp only [Value.asString, bind_eq_bind, bind_some, if_neg escaped]
      rfl
  rw [Functions.escapeChars]
  simp only [Value.asString, bind_eq_bind, bind_some] at pieces ⊢
  rw [pieces, List.flatMap]
  rfl

theorem escapeChars_same (called : BuiltIn.escapeChars args = .ok branches) :
    SameString library imports branches := by
  obtain ⟨named, -, called⟩ := of_withParameters called
  obtain ⟨str, -, called⟩ := of_retrieve called
  cases called
  intro text static env value success
  obtain ⟨expr, written, result⟩ := of_denote_runtimeCall success
    (show ("escape_chars", escapeCharsExpr) ∈ _ by simp [builtInFunctions])
    (by cases lookupParam (lit "chars") named <;> cases lookupParam (lit "prefix") named <;>
      simp [optionalArg])
  cases str with
  | string str =>
    cases chars : (lookupParam (lit "chars") named).getD (.string []) with
    | string chars' =>
      cases charPrefix : (lookupParam (lit "prefix") named).getD (.string (lit "\\")) with
      | string charPrefix' =>
        rw [chars, charPrefix] at static
        cases static
        have evaluatedChars : evalGet expr "chars" (.string []) (evaluate library imports) env =
            some (.string chars') := by
          rw [evalGet_optional written (by decide) ⟨chars', chars⟩ rfl, chars, denote_string]
          · intro arg given
            simp [given, optionalArg]
          · intro missing
            cases lookupParam (lit "prefix") named <;> simp [missing, optionalArg]
        have evaluatedPrefix : evalGet expr "escape_prefix" (.string (lit "\\"))
            (evaluate library imports) env = some (.string charPrefix') := by
          rw [evalGet_optional written (by decide) ⟨charPrefix', charPrefix⟩ rfl, charPrefix,
            denote_string]
          · intro arg given
            simp [given, optionalArg]
          · intro missing
            cases lookupParam (lit "chars") named <;> simp [missing, optionalArg]
        rw [escapeCharsExpr, evaluatedChars, evaluatedPrefix,
          written.evalGet_eq mem_cons_self rfl, denote_string] at result
        simp only [bind_eq_bind, bind_some, escapeChars_eq] at result
        cases result
        rfl
      | _ => rw [chars, charPrefix] at static; cases static
    | _ => rw [chars] at static; cases static
  | _ => cases static

theorem denote_join {sep : Str} (texts : List Str)
    (literal : separator.getD (.string []) = .string sep) (env : Configuration) :
    denote library imports (runtimeCall "join" (("$1", .list (texts.map .string)) ::
      optionalArg "separator" separator) .string) env = some (.string (sep.intercalate texts)) := by
  have distinct : ("type" :: (("$1", Node.list (texts.map .string)) ::
      optionalArg "separator" separator).map fst).Nodup := by
    cases separator <;> simp [optionalArg]
  cases denote_runtimeCall .string env
      (show ("join", joinExpr) ∈ builtInFunctions library.dump by simp [builtInFunctions])
      distinct with
  | inl fails =>
    obtain ⟨⟨arg, member, -, json⟩, -⟩ := fails
    have unserialised : denote library imports arg.2 env = none := by
      rw [denote, json]
      rfl
    cases mem_cons.mp member with
    | inl first =>
      rw [first, denote_strings] at unserialised
      cases unserialised
    | inr later =>
      cases separator with
      | none => cases later
      | some node =>
        cases mem_singleton.mp later
        rw [show node = .string sep from literal, denote_string] at unserialised
        cases unserialised
  | inr written =>
    obtain ⟨expr, written, denotes⟩ := written
    have evaluated : evalGet expr "separator" (.string []) (evaluate library imports) env =
        some (.string sep) := by
      rw [evalGet_optional written (by decide) ⟨sep, literal⟩ rfl, literal, denote_string]
      · intro arg given
        simp [given, optionalArg]
      · intro missing
        simp [missing, optionalArg]
    rw [denotes, joinExpr, evaluated, written.evalGet_eq mem_cons_self rfl, denote_strings]
    simp only [bind_eq_bind, bind_some, Value.asString, Functions.join,
      mapM_asString, pure_def, false_eq_true, if_false, List.map_id']

theorem joinStatic_literals {sep : Str} (texts : List Str)
    (literal : separator.getD (.string []) = .string sep) :
    joinStatic (.list (texts.map .string)) separator =
      .ok (some (.string (joinTexts sep texts))) := by
  cases separator with
  | none =>
    cases literal
    simp only [joinStatic, stringItems_literals]
    rfl
  | some node =>
    rw [show node = .string sep from literal]
    simp only [joinStatic, stringItems_literals]
    rfl

theorem literals_of_joinStatic {items : Node} {text : Str}
    (static : joinStatic items separator = .ok (some (.string text))) :
    ∃ (texts : List Str) (sep : Str), items = .list (texts.map .string) ∧
      separator.getD (.string []) = .string sep := by
  cases items with
  | list items =>
    cases separator with
    | none =>
      obtain ⟨texts, literals, -⟩ := @texts_of_static _ _ _ (joinTexts []) _ static
      exact ⟨texts, [], by rw [literals], rfl⟩
    | some node =>
      cases node with
      | string sep =>
        obtain ⟨texts, literals, -⟩ := @texts_of_static _ _ _ (joinTexts sep) _ static
        exact ⟨texts, sep, by rw [literals], rfl⟩
      | _ => cases static
  | _ => cases separator <;> cases static

/-- The arguments for which `join` leaves out a separator: a separator that is not empty and at
least two literals, the first of which is empty. -/
def DropsSeparator (args : Params) : Prop :=
  ∃ (named : NamedParams) (texts : List Str) (sep : Str),
    makeNamedParameters args joinParameters = .ok named ∧
    lookupParam (lit "items") named = some (.list (texts.map .string)) ∧
    lookupParam (lit "sep") named = some (.string sep) ∧
    sep ≠ [] ∧ 1 < texts.length ∧ texts.head? = some []

theorem join_same_iff (called : BuiltIn.join args = .ok branches) :
    SameString library imports branches ↔ ¬DropsSeparator args := by
  obtain ⟨named, made, called⟩ := of_withParameters called
  obtain ⟨items, found, called⟩ := of_retrieve called
  cases called
  constructor
  · intro same drops
    obtain ⟨named', texts, sep, made', found', separator, given, several, first⟩ := drops
    rw [made] at made'
    cases made'
    rw [found] at found'
    cases found'
    have literal : (lookupParam (lit "sep") named).getD (.string []) = .string sep := by
      rw [separator]
      rfl
    have equal := same _ (joinStatic_literals texts literal) []
      _ (denote_join texts literal [])
    have joined : joinTexts sep texts = sep.intercalate texts := (Value.string.inj equal).symm
    rw [joinTexts_eq_iff] at joined
    rcases joined with empty | short | other
    · exact given empty
    · omega
    · exact other first
  · intro fine text static env value success
    obtain ⟨texts, sep, literals, literal⟩ := literals_of_joinStatic static
    subst literals
    rw [denote_join texts literal] at success
    rw [joinStatic_literals texts literal] at static
    cases static
    cases success
    rw [(joinTexts_eq_iff sep texts).mpr]
    by_cases given : sep = []
    · exact .inl given
    · by_contra wrong
      simp only [given, false_or, not_or, not_le, not_not] at wrong
      refine fine ⟨named, texts, sep, made, found, ?_, given, wrong.1, wrong.2⟩
      cases separator : lookupParam (lit "sep") named with
      | none =>
        rw [separator] at literal
        cases literal
        exact absurd rfl given
      | some node =>
        rw [separator] at literal
        exact congrArg some literal

/-- The static and the runtime functions on strings agree on all arguments, except that `join`
leaves out a separator. -/
theorem string_builtins_agree (library : Library)
    (imports : Option (List (Str × ExpressionFunction))) (builtin : StringBuiltin) (args : Params)
    (branches : Branches) (called : builtin.call args = .ok branches) :
    SameString library imports branches ↔ builtin = .join → ¬DropsSeparator args := by
  cases builtin with
  | join => rw [join_same_iff called, forall_prop_of_true rfl]
  | joinCmd => exact iff_of_true (joinCmd_same called) nofun
  | escapeChars => exact iff_of_true (escapeChars_same called) nofun
  | changeEnding => exact iff_of_true (changeEnding_same called) nofun
  | basename => exact iff_of_true (basename_same called) nofun

/-- The arguments of `jst.join(["a", ""], ",")`. -/
def trailingEmpty : Params :=
  [(none, .list [.string (lit "a"), .string []]), (none, .string (lit ","))]

theorem trailingEmpty_joined :
    SameString FreeVariables.bare none
      ⟨.ok (some (.string (lit "a,"))),
        runtimeCall "join" [("$1", .list [.string (lit "a"), .string []]),
          ("separator", .string (lit ","))] .string⟩ :=
  (string_builtins_agree FreeVariables.bare none .join trailingEmpty _ rfl).mpr
    fun _ drops => by
      obtain ⟨named, texts, sep, made, found, -, -, -, first⟩ := drops
      cases made
      have items : [Node.string (lit "a"), .string []] = texts.map .string :=
        Node.list.inj (some.inj found)
      cases texts with
      | nil => cases first
      | cons text texts =>
        cases some.inj first
        cases Node.string.inj (cons.inj items).1

theorem leadingEmpty_not_joined :
    ∃ branches, StringBuiltin.call .join
        [(none, .list [.string [], .string (lit "a")]), (none, .string (lit ","))] = .ok branches ∧
      ¬SameString FreeVariables.bare none branches := by
  refine ⟨_, rfl, fun same => ?_⟩
  have value := same (lit "a") rfl [] (.string (lit ",a")) (by decide)
  exact absurd value (by decide)

end Builtins

end Jst.Verif.StringBuiltins
