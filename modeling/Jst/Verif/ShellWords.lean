import Jst.Verif.StringBuiltins
/-!
# Command lines are split into their arguments

A POSIX shell splits a command line into words at blanks that are not quoted, and removes the
quotes. From a command line that is joined of quoted arguments it gets back the arguments.
-/
namespace Jst.Verif.ShellWords

open Expression Evaluator Lang BuiltIn StringBuiltins

/-- How the next character is quoted. -/
inductive Quoting where
  | none
  | escaped
  | single
  | double
  | doubleEscaped

/-- What has a meaning for the shell if it is not quoted: the end of a command, operators,
expansions, patterns, comments and assignments. -/
def special : Str := lit "\n|&;<>()$\x60*?[#~=%!\x7b\x7d"

/-- What a backslash escapes between double quotes. -/
def escapable : Str := lit "$\x60\"\\"

/-- The words of a command line, by the quoting rules of a POSIX shell: the word that has been begun
and those that follow. There are none if a quotation is not closed, or if the command line has more
than words. -/
def words : Quoting → Option Str → Str → Option (List Str)
  | .none, word, [] => some word.toList
  | .none, word, char :: rest =>
    if char = 32 ∨ char = 9 then (words .none none rest).map (word.toList ++ ·)
    else if char = 92 then words .escaped word rest
    else if char = 39 then words .single (some (word.getD [])) rest
    else if char = 34 then words .double (some (word.getD [])) rest
    else if char ∈ special then none
    else words .none (some (word.getD [] ++ [char])) rest
  | .escaped, word, char :: rest =>
    if char = 10 then words .none word rest
    else words .none (some (word.getD [] ++ [char])) rest
  | .single, word, char :: rest =>
    if char = 39 then words .none word rest
    else words .single (some (word.getD [] ++ [char])) rest
  | .double, word, char :: rest =>
    if char = 34 then words .none word rest
    else if char = 92 then words .doubleEscaped word rest
    else if char ∈ escapable then none
    else words .double (some (word.getD [] ++ [char])) rest
  | .doubleEscaped, word, char :: rest =>
    if char = 10 then words .double word rest
    else if char ∈ escapable then words .double (some (word.getD [] ++ [char])) rest
    else words .double (some (word.getD [] ++ [92, char])) rest
  | _, _, [] => none

theorem words_replaceQuotes (word arg rest : Str) :
    words .single (some word) (replaceQuotes arg ++ 39 :: rest) =
      words .none (some (word ++ arg)) rest := by
  induction arg generalizing word with
  | nil => simp [replaceQuotes, words]
  | cons char arg step =>
    rw [replaceQuotes]
    by_cases quote : char = 39
    · have replaced : lit "'\\''" = [39, 92, 39, 39] := by decide
      simp [quote, replaced, words, step]
    · simp [quote, words, step]

theorem words_shellQuote (arg rest : Str) :
    words .none none (shellQuote arg ++ rest) = words .none (some arg) rest := by
  have quote : lit "'" = [39] := by decide
  simp [shellQuote, quote, words, words_replaceQuotes]

theorem words_join (args : List Str) :
    words .none none ((lit " ").intercalate (args.map shellQuote)) = some args := by
  have blank : lit " " = [32] := by decide
  cases args with
  | nil => rfl
  | cons arg args =>
    rw [map_cons, intercalate_eq, words_shellQuote, blank]
    induction args generalizing arg with
    | nil => rfl
    | cons next args step =>
      rw [map_cons, flatMap_cons, append_assoc]
      simpa [words, words_shellQuote] using step next

/-- The command line that `join_cmd` makes of arguments, while compiling or when it is evaluated, is
split into these arguments. -/
theorem joinCmd_words (args : List Str) : ∃ command,
    (∀ eval expr env, evalGet expr "$1" (.list []) eval env = some (.list (args.map .string)) →
      joinCmdExpr eval expr env = some (.string command)) ∧
    joinCmdStatic (.list (args.map .string)) = .ok (some (.string command)) ∧
    words .none none command = some args := by
  refine ⟨_, ?_, ?_, words_join args⟩
  · intro eval expr env evaluated
    have quoted : args.map Functions.shellQuote = args.map shellQuote :=
      map_congr_left fun arg _ => (shellQuote_eq arg).symm
    rw [joinCmdExpr, evaluated]
    simp only [bind_eq_bind, bind_some, Functions.join, mapM_asString]
    simp [quoted]
  · have joined : joinTexts (lit " ") (args.map shellQuote) = _ :=
      (joinTexts_eq_iff _ _).mpr (.inr (.inr (by cases args <;> simp [shellQuote_ne_nil])))
    simp only [joinCmdStatic, stringItems_literals]
    rw [← joined]
    rfl

end Jst.Verif.ShellWords
