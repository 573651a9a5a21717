import Jst.Lang.Lexer
/-!
# The literal of a text is one token with that text

The scanners of quoted strings, of special strings and of text blocks undo the three ways to write
a text down in the source.
-/
namespace Jst.Verif.StringTokens

open Jst.Lang Jst.Lang.Lexer

variable {filename : Str}

/-- A byte in a string literal. -/
def escaped (quote byte : UInt8) : Str :=
  if byte = newline then [backslash, 110]
  else if byte = 9 then [backslash, 116]
  else if byte = 13 then [backslash, 114]
  else if byte = backslash ∨ byte = quote then [backslash, byte]
  else [byte]

/-- A byte in a verbatim or variable literal. -/
def doubled (byte : UInt8) : Str :=
  if byte = singleQuote then [byte, byte] else [byte]

/-- A line with its newline. -/
def lineText (line : Str) : Str := line ++ [newline]

/-- A line in a text block; an empty line stays empty. -/
def indented (indent line : Str) : Str := if line = [] then [newline] else indent ++ lineText line

/-- The blanks in front of the lines of a text block. -/
def Blank (indent : Str) : Prop := ∀ byte ∈ indent, isSpace byte = true ∧ byte ≠ newline

/-- The source is one token. -/
def Lexes (filename source : Str) (type : TokenType) (value : Str) : Prop :=
  ∃ place, tokenize filename source = .ok [⟨type, value, place⟩]

/-- A text is scanned to its end. -/
def Scans (scan : Position → Str → Except Str (Str × Position × Str))
    (source value : Str) : Prop :=
  ∀ place, ∃ behind, scan place source = .ok (value, behind, [])

theorem scanLiteral_escaped {quote : UInt8} (isQuote : quote = doubleQuote ∨ quote = singleQuote)
    (text : Str) :
    Scans (scanLiteral quote .false) (text.flatMap (escaped quote) ++ [quote]) text := by
  have quoteMeaning : escapeMeaning quote = [quote] := by
    rcases isQuote with rfl | rfl <;> rfl
  have noBackslash : quote ≠ backslash := by
    rcases isQuote with rfl | rfl <;> decide
  induction text with
  | nil =>
    intro place
    exact ⟨place.advance quote, by simp [scanLiteral, noBackslash]⟩
  | cons byte text step =>
    intro place
    rw [flatMap_cons, append_assoc]
    have twice : ∀ second, escapeMeaning second = [byte] → ∃ behind,
        scanLiteral quote .false place
          ([backslash, second] ++ (text.flatMap (escaped quote) ++ [quote])) =
          .ok (byte :: text, behind, []) := by
      intro second meaning
      obtain ⟨behind, scanned⟩ := step ((place.advance backslash).advance second)
      exact ⟨behind, by simp [scanLiteral, scanned, meaning, bind, Except.bind]⟩
    rw [escaped]
    split
    · next same => exact twice _ (same ▸ rfl)
    · split
      · next same => exact twice _ (same ▸ rfl)
      · split
        · next same => exact twice _ (same ▸ rfl)
        · split
          · next same =>
            rcases same with rfl | rfl
            · exact twice _ rfl
            · exact twice _ quoteMeaning
          · next plain =>
            obtain ⟨behind, scanned⟩ := step (place.advance byte)
            have plain := not_or.mp plain
            exact ⟨behind, by simp [scanLiteral, plain, scanned, bind, Except.bind]⟩

theorem scanQuoted_doubled (text : Str) :
    Scans (scanQuoted filename) (text.flatMap doubled ++ [singleQuote]) text := by
  induction text with
  | nil =>
    intro place
    exact ⟨place.advance singleQuote, by simp [scanQuoted]⟩
  | cons byte text step =>
    intro place
    rw [flatMap_cons, append_assoc]
    rw [doubled]
    split
    · next same =>
      obtain ⟨behind, scanned⟩ := step ((place.advance byte).advance byte)
      exact ⟨behind, by subst same; simp [scanQuoted, scanned, bind, Except.bind]⟩
    · next plain =>
      obtain ⟨behind, scanned⟩ := step (place.advance byte)
      cases more : text.flatMap doubled ++ [singleQuote] with
      | nil => simp at more
      | cons next rest =>
        rw [more] at scanned
        exact ⟨behind, by simp [scanQuoted, plain, scanned, bind, Except.bind]⟩

variable {indent rest value : Str}

theorem scanLines_line {indent : Nat}
    (scanned : Scans (scanLines filename indent (some 0)) rest value) (line : Str)
    (whole : newline ∉ line) :
    Scans (scanLines filename indent none) (lineText line ++ rest) (lineText line ++ value) := by
  induction line with
  | nil =>
    intro place
    obtain ⟨behind, scanned⟩ := scanned (place.advance newline)
    exact ⟨behind, by simp [lineText, scanLines, scanned, bind, Except.bind]⟩
  | cons byte line step =>
    intro place
    rw [mem_cons, not_or] at whole
    obtain ⟨behind, scanned⟩ := step whole.2 (place.advance byte)
    simp only [lineText, append_assoc, singleton_append] at scanned
    exact ⟨behind, by
      simp [lineText, scanLines, Ne.symm whole.1, scanned, bind, Except.bind]⟩

theorem scanLines_blanks {all blanks : Nat}
    (scanned : Scans (scanLines filename all none) rest value) (indent : Str)
    (blank : Blank indent) (left : blanks + indent.length = all) (more : indent ≠ []) :
    Scans (scanLines filename all (some blanks)) (indent ++ rest) value := by
  induction indent generalizing blanks with
  | nil => exact absurd rfl more
  | cons byte indent step =>
    intro place
    obtain ⟨space, same⟩ := blank byte mem_cons_self
    rw [length_cons] at left
    cases indent with
    | nil =>
      obtain ⟨behind, scanned⟩ := scanned (place.advance byte)
      have last : ¬ blanks + 1 < all := by rw [← left]; simp
      exact ⟨behind, by simp [scanLines, space, same, last, scanned]⟩
    | cons next indent =>
      have before : blanks + 1 < all := by rw [← left, length_cons]; omega
      obtain ⟨behind, scanned⟩ := @step (blanks + 1)
        (forall_mem_cons.mp blank).2
        (by rw [← left]; omega) (by simp) (place.advance byte)
      exact ⟨behind, by simpa [scanLines, space, same, before] using scanned⟩

theorem scanLines_indented (blank : Blank indent) (more : indent ≠ [])
    (lines : List Str) (whole : ∀ line ∈ lines, newline ∉ line) :
    Scans (scanLines filename indent.length (some 0)) (lines.flatMap (indented indent) ++ bars)
      (lines.flatMap lineText) := by
  induction lines with
  | nil =>
    intro place
    exact ⟨place.after bars, rfl⟩
  | cons line lines step =>
    have behind := step (forall_mem_cons.mp whole).2
    rw [flatMap_cons, flatMap_cons, append_assoc, indented]
    split
    · next empty =>
      intro place
      obtain ⟨behind, scanned⟩ := behind (place.advance newline)
      exact ⟨behind, by simp [empty, lineText, scanLines, scanned, bind, Except.bind]⟩
    · rw [append_assoc]
      exact scanLines_blanks
        (scanLines_line behind line (whole line mem_cons_self)) indent blank (Nat.zero_add _)
        more

theorem skipIndent_blank (blank : Blank indent) {first : UInt8}
    (begins : isSpace first = false) (rest : Str) (place : Position) :
    ∃ behind, skipIndent filename place (indent ++ first :: rest) =
      .ok (indent.length, behind, first :: rest) := by
  induction indent generalizing place with
  | nil =>
    have same : first ≠ newline := by
      rintro rfl
      cases begins
    exact ⟨place, by simp [skipIndent, same, begins]⟩
  | cons byte indent step =>
    obtain ⟨space, same⟩ := blank byte mem_cons_self
    obtain ⟨behind, skipped⟩ := step
      (forall_mem_cons.mp blank).2 (place.advance byte)
    exact ⟨behind, by simp [skipIndent, space, same, skipped, bind, Except.bind]⟩

theorem Lexes.of_scanToken {source : Str} {type : TokenType} {byte : UInt8} {place : Position}
    (begins : isSpace byte = false) (noComment : byte ≠ slash)
    (scanned : scanToken filename ⟨1, 1⟩ (byte :: source) =
      .ok (⟨type, value, place⟩, place, [])) : Lexes filename (byte :: source) type value := by
  have noComment : atComment (byte :: source) = .false := by
    cases source <;> simp [atComment, noComment]
  refine ⟨place, ?_⟩
  rw [tokenize, length_cons, tokenizeFrom]
  have nothing : ∀ turns, tokenizeFrom filename turns place [] = .ok [] := by
    rintro (_ | turns) <;> rfl
  simp only [skipWhitespace, begins, noComment, scanned, nothing, bind, Except.bind,
    false_eq_true, if_false, reduceCtorEq]

theorem tokenize_literals (filename text : Str) :
    (∀ quote, quote = doubleQuote ∨ quote = singleQuote →
      Lexes filename (quote :: (text.flatMap (escaped quote) ++ [quote]))
        (if quote = doubleQuote then .stringDouble else .stringSingle) text) ∧
    (∀ marker, marker = 64 ∨ marker = 36 →
      Lexes filename (marker :: singleQuote :: (text.flatMap doubled ++ [singleQuote]))
        (if marker = 36 then .varString else .refString) text) ∧
    ∀ indent first line lines, indent ≠ [] → Blank indent → isSpace first = false →
      (∀ each ∈ (first :: line) :: lines, newline ∉ each) →
      text = ((first :: line) :: lines).flatMap lineText → Lexes filename
        (bars ++ newline :: (((first :: line) :: lines).flatMap (indented indent) ++ bars))
        .textBlock text := by
  refine ⟨?_, ?_, ?_⟩
  · intro quote isQuote
    obtain ⟨place, scanned⟩ := scanLiteral_escaped isQuote text ((Position.mk 1 1).advance quote)
    refine @Lexes.of_scanToken filename _ _ _ _ place ?_ ?_ ?_
    · rcases isQuote with rfl | rfl <;> rfl
    · rcases isQuote with rfl | rfl <;> decide
    · have simple : simpleTokens.lookup quote = none := by
        rcases isQuote with rfl | rfl <;> rfl
      simp only [scanToken, simple, if_pos isQuote, scanned]
      rfl
  · intro marker isMarker
    obtain ⟨place, scanned⟩ := @scanQuoted_doubled filename text
      (((Position.mk 1 1).advance marker).advance singleQuote)
    refine @Lexes.of_scanToken filename _ _ _ _ place ?_ ?_ ?_
    · rcases isMarker with rfl | rfl <;> rfl
    · rcases isMarker with rfl | rfl <;> decide
    · have special : scanToken filename ⟨1, 1⟩
          (marker :: singleQuote :: (text.flatMap doubled ++ [singleQuote])) =
          scanSpecialString filename ⟨1, 1⟩
            (marker :: singleQuote :: (text.flatMap doubled ++ [singleQuote])) := by
        rcases isMarker with rfl | rfl <;> rfl
      rw [special, scanSpecialString, if_pos rfl, scanned]
      rfl
  · intro indent first line lines more blank begins whole written
    have behind := @scanLines_indented filename _ blank more lines
      (forall_mem_cons.mp whole).2
    obtain ⟨start, skipped⟩ := @skipIndent_blank filename _ blank _ begins
      (line ++ newline :: (lines.flatMap (indented indent) ++ bars))
      (((Position.mk 1 1).after bars).advance newline)
    obtain ⟨place, scanned⟩ := scanLines_line behind (first :: line) (whole _ mem_cons_self) start
    have read : handleTextBlock filename ((Position.mk 1 1).after bars)
        (newline :: (((first :: line) :: lines).flatMap (indented indent) ++ bars)) =
        .ok (⟨.textBlock, text, place⟩, place, []) := by
      have start' : ((first :: line) :: lines).flatMap (indented indent) ++ bars =
          indent ++ first :: (line ++ newline :: (lines.flatMap (indented indent) ++ bars)) := by
        simp [indented, lineText]
      rw [start', handleTextBlock, skipLineEnd, if_pos rfl]
      simp only [bind, Except.bind, skipped]
      rw [if_neg (by simpa using more)]
      simp only [lineText, cons_append, append_assoc, nil_append] at scanned
      simp [scanned, written, lineText]
    exact Lexes.of_scanToken rfl (by decide) read

end Jst.Verif.StringTokens
