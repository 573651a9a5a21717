import Mathlib.Data.List.Infix
import Jst.Lang.Lexer
/-!
# Layout of a source

A rendering of a sequence of tokens writes them with whitespace and comments in between, or with
nothing between tokens that cannot be taken for a longer operator. The scanner gives the tokens back
exactly if no operator runs into a symbol behind it, which may also be the first byte of a comment,
of a text block or of another operator.
-/
namespace Jst.Verif.Layout

open Jst.Lang Jst.Lang.Lexer

variable {behind : Position × Str} {items : List (Lexeme × List Blank)} {lexeme : Lexeme}
  {place : Position} {turns : Nat} {comment : Option Str} {blanks : Str}

/-! ## Renderings -/

/-- The operators of the language. -/
def operators : List Str := symbols.map ([·]) ++ validBinaryOperators

/-- Whitespace within a line. -/
def IsBlank (byte : UInt8) : Prop := isSpace byte = true ∧ byte ≠ newline

/-- A piece of a string literal: a byte that stands for itself, or a byte behind a backslash. -/
inductive Piece where
  | plain (byte : UInt8)
  | escaped (byte : UInt8)

namespace Piece

/-- How a piece is written. -/
def text : Piece → Str
  | plain byte => [byte]
  | escaped byte => [backslash, byte]

/-- What a piece stands for. -/
def value : Piece → Str
  | plain byte => [byte]
  | escaped byte => escapeMeaning byte

/-- Only a byte that is neither a backslash nor the quote stands for itself. -/
def Fits (quote : UInt8) : Piece → Prop
  | plain byte => byte ≠ backslash ∧ byte ≠ quote
  | escaped _ => True

end Piece

/-- A way to write a text block. A line is empty or has an indentation and a content. -/
structure TextBlock where
  trailing : Str
  indent : Str
  first : UInt8
  content : Str
  lines : List (Option (Str × Str))
  closing : Str
  trailing_blank : ∀ byte ∈ trailing, IsBlank byte
  indent_blank : ∀ byte ∈ indent, IsBlank byte
  indented : indent ≠ []
  first_visible : isSpace first = false
  content_line : newline ∉ content
  line_indent : ∀ line ∈ lines, ∀ pair, line = some pair →
    pair.1.length = indent.length ∧ (∀ byte ∈ pair.1, IsBlank byte) ∧ newline ∉ pair.2
  closing_blank : ∀ byte ∈ closing, IsBlank byte
  closing_short : closing.length < indent.length

namespace TextBlock

/-- How a line is written. -/
def lineText : Option (Str × Str) → Str
  | none => [newline]
  | some (indent, content) => indent ++ (content ++ [newline])

/-- What a line stands for. -/
def lineValue : Option (Str × Str) → Str
  | none => [newline]
  | some (_, content) => content ++ [newline]

/-- How a text block is written. -/
def text (block : TextBlock) : Str :=
  bars ++ (block.trailing ++ newline :: (block.indent ++ (block.first :: block.content ++
    newline :: (block.lines.flatMap lineText ++ (block.closing ++ bars)))))

/-- What a text block stands for. -/
def value (block : TextBlock) : Str :=
  block.first :: block.content ++ newline :: block.lines.flatMap lineValue

end TextBlock

/-- A token with a way to write it. -/
inductive Lexeme where
  | punctuation (byte : UInt8) (type : TokenType) (known : simpleTokens.lookup byte = some type)
  | operator (text : Str) (known : text ∈ operators)
  | word (first : UInt8) (rest : Str) (begins : isWordStart first = true)
    (bytes : ∀ byte ∈ rest, isWordByte byte = true)
  | integer (first : UInt8) (rest : Str) (digits : ∀ byte ∈ first :: rest, isDigit byte = true)
  | float (first : UInt8) (rest : Str) (digits : ∀ byte ∈ first :: rest, isDigit byte = true)
    (tenth : UInt8) (more : Str) (fraction : ∀ byte ∈ tenth :: more, isDigit byte = true)
  | string (quote : UInt8) (isQuote : quote = doubleQuote ∨ quote = singleQuote)
    (pieces : List Piece) (fits : ∀ piece ∈ pieces, piece.Fits quote)
  | special (marker : UInt8) (isMarker : marker = 64 ∨ marker = 36) (content : Str)
  | textBlock (block : TextBlock)

namespace Lexeme

/-- Quotes are doubled in a special string. -/
def double (byte : UInt8) : Str := if byte = singleQuote then [byte, byte] else [byte]

/-- How a token is written. -/
def text : Lexeme → Str
  | punctuation byte _ _ => [byte]
  | operator text _ => text
  | word first rest _ _ => first :: rest
  | integer first rest _ => first :: rest
  | float first rest _ tenth more _ => first :: rest ++ 46 :: tenth :: more
  | string quote _ pieces _ => quote :: (pieces.flatMap Piece.text ++ [quote])
  | special marker _ content => marker :: singleQuote :: (content.flatMap double ++ [singleQuote])
  | textBlock block => block.text

/-- The type and the value of a token. -/
def content : Lexeme → TokenType × Str
  | punctuation byte type _ => (type, [byte])
  | operator text _ => (.operator, text)
  | word first rest _ _ => ((keywords.lookup (first :: rest)).getD .identifier, first :: rest)
  | integer first rest _ => (.integer, first :: rest)
  | float first rest _ tenth more _ => (.float, first :: rest ++ 46 :: tenth :: more)
  | string quote _ pieces _ =>
    (if quote = doubleQuote then .stringDouble else .stringSingle, pieces.flatMap Piece.value)
  | special marker _ content => (if marker = 36 then .varString else .refString, content)
  | textBlock block => (.textBlock, block.value)

/-- A token is an operator. -/
def IsOperator : Lexeme → Prop
  | operator _ _ => True
  | _ => False

/-- A token is a bracket, a full stop, a comma or a semicolon. -/
def IsPunctuation : Lexeme → Prop
  | punctuation _ _ _ => True
  | _ => False

/-- A token is a number. -/
def IsNumber : Lexeme → Prop
  | integer _ _ _ | float _ _ _ _ _ _ => True
  | _ => False

/-- Two tokens need nothing in between: an operator in front of or behind a token with which it does
not form a longer operator, or punctuation, but no full stop behind a number. -/
def MayTouch (left right : Lexeme) : Prop :=
  (left.IsOperator ∨ right.IsOperator ∨ left.IsPunctuation ∨
    right.IsPunctuation ∧ ¬(left.IsNumber ∧ right.text = [46])) ∧
  (left.IsOperator → ∀ longer ∈ operators, left.text <+: longer →
    longer <+: left.text ++ right.text → longer = left.text)

end Lexeme

/-- Whitespace or a comment. -/
inductive Blank where
  | space (byte : UInt8) (isSpace : isSpace byte = true)
  | line (body : Str) (oneLine : newline ∉ body)
  | block (body : Str) (unclosed : ¬[asterisk, slash] <:+: body)

/-- How whitespace and comments are written. -/
def Blank.text : Blank → Str
  | space byte _ => [byte]
  | line body _ => slash :: slash :: (body ++ [newline])
  | block body _ => slash :: asterisk :: (body ++ [asterisk, slash])

/-- How what separates two tokens is written. -/
def gapText (gap : List Blank) : Str := gap.flatMap Blank.text

/-- A way to write a sequence of tokens. The last line may be a comment. -/
structure Rendering where
  front : List Blank
  items : List (Lexeme × List Blank)
  comment : Option Str
  comment_line : ∀ body, comment = some body → newline ∉ body
  apart : items.IsChain fun left right => left.2 ≠ [] ∨ left.1.MayTouch right.1

/-- How tokens with what separates them are written. -/
def itemsText (comment : Option Str) : List (Lexeme × List Blank) → Str
  | [] => comment.elim [] fun body => slash :: slash :: body
  | (lexeme, gap) :: items => lexeme.text ++ (gapText gap ++ itemsText comment items)

namespace Rendering

/-- The source text. -/
def text (rendering : Rendering) : Str :=
  gapText rendering.front ++ itemsText rendering.comment rendering.items

/-- The types and values of the tokens. -/
def contents (rendering : Rendering) : List (TokenType × Str) :=
  rendering.items.map fun item => item.1.content

end Rendering

/-- An operator ends in front of a text: no symbol follows, except a minus or a plus behind an
operator that ends in an equals sign. -/
def Stops (operator rest : Str) : Prop :=
  ∀ byte ∈ rest.head?, isSymbol byte = true →
    operator.getLast? = some equals ∧ (byte = 45 ∨ byte = 43)

/-- Every operator ends in front of what follows it. -/
def OperatorsEnd (comment : Option Str) : List (Lexeme × List Blank) → Prop
  | [] => True
  | (lexeme, gap) :: items =>
    (lexeme.IsOperator → Stops lexeme.text (gapText gap ++ itemsText comment items)) ∧
      OperatorsEnd comment items

/-- Some slash forms the beginning of a comment with what follows it. -/
def OpensComment (comment : Option Str) : List (Lexeme × List Blank) → Prop
  | [] => False
  | (lexeme, gap) :: items =>
    lexeme.text = [slash] ∧
        ((gapText gap ++ itemsText comment items).head? = some slash ∨
          (gapText gap ++ itemsText comment items).head? = some asterisk) ∨
      OpensComment comment items

/-! ## Kinds of bytes -/

section
set_option maxRecDepth 20000

theorem wordStart_class : ∀ byte : UInt8, isWordStart byte = true →
    simpleTokens.lookup byte = none ∧ ¬(byte = doubleQuote ∨ byte = singleQuote) ∧
      isSymbol byte = false ∧ isDigit byte = false ∧ ¬(byte = 64 ∨ byte = 36) ∧
      isSpace byte = false ∧ isWordByte byte = true :=
  forall_byte (by decide)

theorem digit_class : ∀ byte : UInt8, isDigit byte = true →
    simpleTokens.lookup byte = none ∧ ¬(byte = doubleQuote ∨ byte = singleQuote) ∧
      isSymbol byte = false ∧ isSpace byte = false :=
  forall_byte (by decide)

theorem symbol_class : ∀ byte : UInt8, isSymbol byte = true →
    simpleTokens.lookup byte = none ∧ ¬(byte = doubleQuote ∨ byte = singleQuote) ∧
      isSpace byte = false ∧ isWordByte byte = false ∧ isDigit byte = false ∧ byte ≠ 46 :=
  forall_byte (by decide)

theorem space_class : ∀ byte : UInt8, isSpace byte = true →
    isWordByte byte = false ∧ isDigit byte = false ∧ byte ≠ 46 ∧ byte ≠ singleQuote ∧
      isSymbol byte = false :=
  forall_byte (by decide)

theorem punctuation_class : ∀ byte : UInt8, (simpleTokens.lookup byte).isSome = true →
    isSpace byte = false ∧ isWordByte byte = false ∧ isDigit byte = false ∧ byte ≠ singleQuote ∧
      isSymbol byte = false :=
  forall_byte (by decide)

end

/-! ## Scanners -/

@[simp] theorem after_append (place : Position) (front back : Str) :
    place.after (front ++ back) = (place.after front).after back :=
  foldl_append

@[simp] theorem after_cons (place : Position) (byte : UInt8) (rest : Str) :
    place.after (byte :: rest) = (place.advance byte).after rest := rfl

@[simp] theorem after_nil (place : Position) : place.after [] = place := rfl

theorem scanWhile_append {kind : UInt8 → Bool} {front rest : Str}
    (inside : ∀ byte ∈ front, kind byte = true) (outside : ∀ byte ∈ rest.head?, kind byte = false)
    (place : Position) :
    scanWhile kind place (front ++ rest) = (front, place.after front, rest) := by
  induction front generalizing place with
  | nil =>
    cases rest with
    | nil => rfl
    | cons byte tail =>
      have other := outside byte rfl
      simp [scanWhile, other]
  | cons byte tail ih =>
    have here := inside byte mem_cons_self
    have later := ih (forall_mem_cons.mp inside).2
      (place.advance byte)
    simp [scanWhile, here, later]

theorem scanLiteral_pieces {quote : UInt8} (isQuote : quote = doubleQuote ∨ quote = singleQuote)
    {pieces : List Piece} (fits : ∀ piece ∈ pieces, piece.Fits quote) (place : Position)
    (rest : Str) :
    scanLiteral quote false place (pieces.flatMap Piece.text ++ quote :: rest) =
      .ok (pieces.flatMap Piece.value, place.after (pieces.flatMap Piece.text ++ [quote]), rest) := by
  have notBackslash : quote ≠ backslash := by
    rcases isQuote with rfl | rfl <;> decide
  induction pieces generalizing place with
  | nil => simp [scanLiteral, notBackslash]
  | cons piece pieces ih =>
    have later := fun place =>
      ih (forall_mem_cons.mp fits).2 place
    cases piece with
    | plain byte =>
      obtain ⟨notEscape, notEnd⟩ : byte ≠ backslash ∧ byte ≠ quote := fits _ mem_cons_self
      simp [scanLiteral, Piece.text, Piece.value, notEscape, notEnd, later, bind, Except.bind]
    | escaped byte =>
      simp [scanLiteral, Piece.text, Piece.value, later, bind, Except.bind]

theorem scanQuoted_double (filename : Str) (content rest : Str)
    (ends : rest.head? ≠ some singleQuote) (place : Position) :
    scanQuoted filename place (content.flatMap Lexeme.double ++ singleQuote :: rest) =
      .ok (content, place.after (content.flatMap Lexeme.double ++ [singleQuote]), rest) := by
  induction content generalizing place with
  | nil =>
    cases rest with
    | nil => simp [scanQuoted]
    | cons byte tail =>
      have differs : byte ≠ singleQuote := fun same => ends (congrArg some same)
      simp [scanQuoted, differs]
  | cons byte content ih =>
    by_cases isQuote : byte = singleQuote
    · simp [Lexeme.double, isQuote, scanQuoted, ih, bind, Except.bind]
    · have more : ∃ next tail, content.flatMap Lexeme.double ++ singleQuote :: rest =
          next :: tail := by
        cases shape : content.flatMap Lexeme.double ++ singleQuote :: rest with
        | nil => simp at shape
        | cons next tail => exact ⟨next, tail, rfl⟩
      obtain ⟨next, tail, shape⟩ := more
      have later := ih (place.advance byte)
      rw [shape] at later
      have text : (byte :: content).flatMap Lexeme.double ++ singleQuote :: rest =
          byte :: next :: tail := by
        simp [Lexeme.double, isQuote, ← shape]
      rw [text]
      simp [scanQuoted, isQuote, later, bind, Except.bind, Lexeme.double]

/-! ## Text blocks -/

theorem skipLineEnd_blank (filename : Str) (blank : ∀ byte ∈ blanks, IsBlank byte)
    (place : Position) (rest : Str) :
    skipLineEnd filename place (blanks ++ newline :: rest) =
      .ok (place.after (blanks ++ [newline]), rest) := by
  induction blanks generalizing place with
  | nil => simp [skipLineEnd]
  | cons byte tail ih =>
    have here := blank byte mem_cons_self
    have later := ih (forall_mem_cons.mp blank).2
      (place.advance byte)
    simp [skipLineEnd, here.1, here.2, later]

variable {byte : UInt8}

theorem skipIndent_blank (filename : Str) (blank : ∀ byte ∈ blanks, IsBlank byte)
    (visible : isSpace byte = false) (place : Position) (rest : Str) :
    skipIndent filename place (blanks ++ byte :: rest) =
      .ok (blanks.length, place.after blanks, byte :: rest) := by
  induction blanks generalizing place with
  | nil =>
    have notNewline : byte ≠ newline := by
      intro same
      rw [same] at visible
      exact absurd visible (by decide)
    simp [skipIndent, visible, notNewline]
  | cons first tail ih =>
    have here := blank first mem_cons_self
    have later := ih (forall_mem_cons.mp blank).2
      (place.advance first)
    simp [skipIndent, here.1, here.2, later, bind, Except.bind]

variable {body digits filename rest : Str}

theorem scanLines_content (filename : Str) (indent : Nat) {content : Str}
    (oneLine : newline ∉ content) {value : Str} (place : Position)
    (next : scanLines filename indent (some 0) (place.after (content ++ [newline])) rest =
      .ok (value, behind)) :
    scanLines filename indent none place (content ++ newline :: rest) =
      .ok (content ++ newline :: value, behind) := by
  induction content generalizing place with
  | nil =>
    rw [nil_append, after_cons, after_nil] at next
    simp [scanLines, next, bind, Except.bind]
  | cons byte tail ih =>
    have here : byte ≠ newline := fun same => oneLine (by simp [same])
    have later := ih (fun member => oneLine (mem_cons_of_mem _ member))
      (place.advance byte) next
    simp [scanLines, here, later, bind, Except.bind]

theorem scanLines_indent (filename : Str) (indent count : Nat)
    (blank : ∀ byte ∈ blanks, IsBlank byte) (some' : blanks ≠ [])
    (length : count + blanks.length = indent) (place : Position) (rest : Str) :
    scanLines filename indent (some count) place (blanks ++ rest) =
      scanLines filename indent none (place.after blanks) rest := by
  induction blanks generalizing place count with
  | nil => exact absurd rfl some'
  | cons byte tail ih =>
    have here := blank byte mem_cons_self
    rw [length_cons] at length
    have step : scanLines filename indent (some count) place (byte :: (tail ++ rest)) =
        scanLines filename indent (if count + 1 < indent then some (count + 1) else none)
          (place.advance byte) (tail ++ rest) := by
      simp [scanLines, here.1, here.2]
    rw [cons_append, step]
    by_cases last : tail = []
    · have stop : ¬count + 1 < indent := by
        rw [last, length_nil] at length
        omega
      rw [if_neg stop, last]
      rfl
    · have positive := List.length_pos_of_ne_nil last
      rw [if_pos (by omega)]
      exact ih _ (forall_mem_cons.mp blank).2 last (by omega) _

theorem scanLines_closing (filename : Str) (indent count : Nat)
    (blank : ∀ byte ∈ blanks, IsBlank byte) (short : count + blanks.length < indent)
    (place : Position) (rest : Str) :
    scanLines filename indent (some count) place (blanks ++ (bars ++ rest)) =
      .ok ([], place.after (blanks ++ bars), rest) := by
  induction blanks generalizing place count with
  | nil =>
    show scanLines filename indent (some count) place (124 :: 124 :: 124 :: rest) = _
    simp [scanLines, newline, isSpace, show bars = [124, 124, 124] from rfl]
  | cons byte tail ih =>
    have here := blank byte mem_cons_self
    rw [length_cons] at short
    have step : scanLines filename indent (some count) place (byte :: (tail ++ (bars ++ rest))) =
        scanLines filename indent (some (count + 1)) (place.advance byte)
          (tail ++ (bars ++ rest)) := by
      have more : count + 1 < indent := by omega
      simp [scanLines, here.1, here.2, more]
    rw [cons_append, step]
    exact ih _ (forall_mem_cons.mp blank).2 (by omega) _

theorem scanLines_lines (filename : Str) {indent : Nat} (positive : 0 < indent)
    {lines : List (Option (Str × Str))}
    (wellIndented : ∀ line ∈ lines, ∀ pair, line = some pair →
      pair.1.length = indent ∧ (∀ byte ∈ pair.1, IsBlank byte) ∧ newline ∉ pair.2)
    {closing : Str} (blank : ∀ byte ∈ closing, IsBlank byte) (short : closing.length < indent)
    (place : Position) (rest : Str) :
    scanLines filename indent (some 0) place
        (lines.flatMap TextBlock.lineText ++ (closing ++ (bars ++ rest))) =
      .ok (lines.flatMap TextBlock.lineValue,
        place.after (lines.flatMap TextBlock.lineText ++ (closing ++ bars)), rest) := by
  induction lines generalizing place with
  | nil =>
    have closes := scanLines_closing filename indent 0 blank (by omega) place rest
    simpa using closes
  | cons line lines ih =>
    have later := fun place =>
      ih (forall_mem_cons.mp wellIndented).2 place
    cases line with
    | none =>
      have empty := later (place.advance newline)
      simp only [flatMap_cons, TextBlock.lineText, TextBlock.lineValue, cons_append,
        nil_append, after_cons]
      simp [scanLines, empty, bind, Except.bind]
    | some pair =>
      obtain ⟨length, blanks, oneLine⟩ := wellIndented _ mem_cons_self pair rfl
      have some' : pair.1 ≠ [] := by
        intro empty
        rw [empty, length_nil] at length
        omega
      have read := scanLines_content filename indent oneLine (place.after pair.1)
        (later ((place.after pair.1).after (pair.2 ++ [newline])))
      have skipped := scanLines_indent filename indent 0 blanks some' (by omega) place
        (pair.2 ++ newline :: (lines.flatMap TextBlock.lineText ++ (closing ++ (bars ++ rest))))
      rw [read] at skipped
      simpa [TextBlock.lineText, TextBlock.lineValue] using skipped

theorem handleTextBlock_text (filename : Str) (block : TextBlock) (place : Position) (rest : Str) :
    handleTextBlock filename (place.after bars)
        ((block.text ++ rest).drop bars.length) =
      .ok (⟨.textBlock, block.value, place.after block.text⟩, place.after block.text, rest) := by
  have positive := List.length_pos_of_ne_nil block.indented
  let lines := block.lines.flatMap TextBlock.lineText ++ (block.closing ++ (bars ++ rest))
  let inner := block.first :: block.content ++ newline :: lines
  have shape : (block.text ++ rest).drop bars.length =
      block.trailing ++ newline :: (block.indent ++ inner) := by
    rw [TextBlock.text, append_assoc, drop_left]
    simp [inner, lines]
  have opened := skipLineEnd_blank filename block.trailing_blank (place.after bars)
    (block.indent ++ inner)
  have indented := skipIndent_blank filename block.indent_blank block.first_visible
    ((place.after bars).after (block.trailing ++ [newline])) (block.content ++ newline :: lines)
  have oneLine : newline ∉ block.first :: block.content := by
    intro member
    rcases mem_cons.mp member with same | inside
    · have visible := block.first_visible
      rw [← same] at visible
      exact absurd visible (by decide)
    · exact block.content_line inside
  have read := scanLines_content filename block.indent.length oneLine
    (((place.after bars).after (block.trailing ++ [newline])).after block.indent)
    (scanLines_lines filename positive block.line_indent block.closing_blank block.closing_short
      _ rest)
  rw [shape, handleTextBlock, opened]
  simp only [bind, Except.bind]
  rw [show inner = block.first :: (block.content ++ newline :: lines) from rfl, indented]
  simp only [Nat.ne_of_gt positive, if_false]
  rw [show block.first :: (block.content ++ newline :: lines) =
    block.first :: block.content ++ newline :: lines from rfl, read]
  simp [TextBlock.text, TextBlock.value]

/-! ## Operators -/

theorem operator_cases : ∀ text ∈ operators,
    (∃ byte, text = [byte] ∧ isSymbol byte = true) ∨
    ∃ first second, text = [first, second] ∧ isSymbol first = true ∧ isSymbol second = true ∧
      second ≠ 45 ∧ second ≠ 43 ∧ text ∈ validBinaryOperators := by
  intro text member
  rcases mem_append.mp member with single | double
  · obtain ⟨byte, symbol, rfl⟩ := mem_map.mp single
    exact .inl ⟨byte, rfl, List.contains_iff_mem.mpr symbol⟩
  · right
    have every : ∀ text ∈ validBinaryOperators, ∃ first second, text = [first, second] ∧
        isSymbol first = true ∧ isSymbol second = true ∧ second ≠ 45 ∧ second ≠ 43 := by
      intro text member
      simp only [validBinaryOperators, mem_cons, not_mem_nil, or_false] at member
      rcases member with rfl | rfl | rfl | rfl | rfl | rfl <;>
        exact ⟨_, _, rfl, by decide, by decide, by decide, by decide⟩
    obtain ⟨first, second, shape, symbols⟩ := every text double
    exact ⟨first, second, shape, symbols.1, symbols.2.1, symbols.2.2.1, symbols.2.2.2, double⟩

theorem scanSymbols_nil (outside : ∀ byte ∈ rest.head?, isSymbol byte = false)
    (place : Position) : scanSymbols place rest = ([], place, rest) := by
  cases rest with
  | nil => rfl
  | cons byte tail =>
    have other := outside byte rfl
    simp [scanSymbols, other]

theorem scanSymbols_last {byte : UInt8} (symbol : isSymbol byte = true) {rest : Str}
    (stops : ∀ next ∈ rest.head?, isSymbol next = true → byte = equals ∧ (next = 45 ∨ next = 43))
    (place : Position) :
    scanSymbols place (byte :: rest) = ([byte], place.advance byte, rest) := by
  by_cases breaks : byte = equals ∧ (rest.head? = some 45 ∨ rest.head? = some 43)
  · rw [scanSymbols, if_pos symbol, if_pos breaks]
  · have outside : ∀ next ∈ rest.head?, isSymbol next = false := by
      intro next head
      by_contra isSymbol
      obtain ⟨same, sign⟩ := stops next head (by simpa using isSymbol)
      apply breaks
      refine ⟨same, ?_⟩
      rw [Option.mem_def.mp head]
      exact sign.imp (congrArg some) (congrArg some)
    rw [scanSymbols, if_pos symbol, if_neg breaks, scanSymbols_nil outside]

theorem scanSymbols_more {next : UInt8} (symbol : isSymbol byte = true)
    (goesOn : ¬(byte = equals ∧ (next = 45 ∨ next = 43))) (place : Position) :
    scanSymbols place (byte :: next :: rest) =
      (byte :: (scanSymbols (place.advance byte) (next :: rest)).1,
        (scanSymbols (place.advance byte) (next :: rest)).2) := by
  have noBreak : ¬(byte = equals ∧
      ((next :: rest).head? = some 45 ∨ (next :: rest).head? = some 43)) := by
    simpa using goesOn
  rw [scanSymbols, if_pos symbol, if_neg noBreak]

variable {text : Str}

theorem scanSymbols_operator (known : text ∈ operators) (stops : Stops text rest)
    (place : Position) : scanSymbols place (text ++ rest) = (text, place.after text, rest) := by
  rcases operator_cases text known with
    ⟨byte, rfl, symbol⟩ | ⟨first, second, rfl, symbol, later, minus, plus, -⟩
  · apply scanSymbols_last symbol
    intro next head isSymbol
    obtain ⟨last, sign⟩ := stops next head isSymbol
    exact ⟨some.inj last, sign⟩
  · have goesOn : ¬(first = equals ∧ (second = 45 ∨ second = 43)) :=
      fun breaks => breaks.2.elim minus plus
    have last : scanSymbols (place.advance first) (second :: rest) =
        ([second], (place.advance first).advance second, rest) := by
      apply scanSymbols_last later
      intro next head isSymbol
      obtain ⟨last, sign⟩ := stops next head isSymbol
      exact ⟨some.inj last, sign⟩
    show scanSymbols place (first :: second :: rest) = _
    rw [scanSymbols_more symbol goesOn, last]
    rfl

theorem scanSymbols_longer (known : text ∈ operators) (goesOn : ¬Stops text rest)
    (place : Position) : text.length < (scanSymbols place (text ++ rest)).1.length := by
  have next : ∃ byte tail, rest = byte :: tail ∧ isSymbol byte = true ∧
      ¬(text.getLast? = some equals ∧ (byte = 45 ∨ byte = 43)) := by
    cases rest with
    | nil => exact absurd (fun byte head => (nomatch head)) goesOn
    | cons byte tail =>
      have fails : ¬(isSymbol byte = true →
          text.getLast? = some equals ∧ (byte = 45 ∨ byte = 43)) := by
        intro holds
        apply goesOn
        intro other head
        rw [← some.inj (Option.mem_def.mp head)]
        exact holds
      push Not at fails
      exact ⟨byte, tail, rfl, fails.1, fun both => by
        rcases both.2 with sign | sign
        · exact (fails.2 both.1).1 sign
        · exact (fails.2 both.1).2 sign⟩
  obtain ⟨byte, tail, rfl, symbol, noBreak⟩ := next
  have read : ∀ place, 1 ≤ (scanSymbols place (byte :: tail)).1.length := by
    intro place
    by_cases breaks : byte = equals ∧ (tail.head? = some 45 ∨ tail.head? = some 43)
    · rw [scanSymbols, if_pos symbol, if_pos breaks]
      exact Nat.le_refl 1
    · rw [scanSymbols, if_pos symbol, if_neg breaks]
      exact Nat.succ_le_succ (Nat.zero_le _)
  rcases operator_cases text known with
    ⟨first, rfl, isSymbol⟩ | ⟨first, second, rfl, isSymbol, later, minus, plus, -⟩
  · have goesOn : ¬(first = equals ∧ (byte = 45 ∨ byte = 43)) :=
      fun breaks => noBreak ⟨congrArg some breaks.1, breaks.2⟩
    have rest := read (place.advance first)
    show 1 < (scanSymbols place (first :: byte :: tail)).1.length
    rw [scanSymbols_more isSymbol goesOn, length_cons]
    omega
  · have inner : ¬(first = equals ∧ (second = 45 ∨ second = 43)) :=
      fun breaks => breaks.2.elim minus plus
    have goesOn : ¬(second = equals ∧ (byte = 45 ∨ byte = 43)) :=
      fun breaks => noBreak ⟨congrArg some breaks.1, breaks.2⟩
    have rest := read ((place.advance first).advance second)
    show 2 < (scanSymbols place (first :: second :: byte :: tail)).1.length
    rw [scanSymbols_more isSymbol inner, scanSymbols_more later goesOn, length_cons, length_cons]
    omega

theorem scanToken_symbol (filename : Str) {byte : UInt8} (symbol : isSymbol byte = true)
    (place : Position) (rest : Str) :
    scanToken filename place (byte :: rest) = handleOperators filename place (byte :: rest) := by
  obtain ⟨simple, noQuote, -⟩ := symbol_class byte symbol
  simp [scanToken, simple, noQuote, symbol]

theorem operator_head (known : text ∈ operators) :
    ∃ byte tail, text = byte :: tail ∧ isSymbol byte = true := by
  rcases operator_cases text known with ⟨byte, rfl, symbol⟩ | ⟨first, second, rfl, symbol, -⟩
  · exact ⟨byte, [], rfl, symbol⟩
  · exact ⟨first, [second], rfl, symbol⟩

theorem scanToken_operator (filename : Str) (known : text ∈ operators)
    (stops : Stops text rest) (place : Position) :
    scanToken filename place (text ++ rest) =
      .ok (⟨.operator, text, place.after text⟩, place.after text, rest) := by
  have read := scanSymbols_operator known stops place
  obtain ⟨byte, tail, shape, symbol⟩ := operator_head known
  have step := scanToken_symbol filename symbol place (tail ++ rest)
  rw [← cons_append, ← shape] at step
  rw [step, handleOperators, read]
  have notBars : text ≠ bars := by
    rcases operator_cases text known with ⟨byte, rfl, -⟩ | ⟨first, second, rfl, -⟩
    · exact fun same => absurd (show 1 = 3 from congrArg List.length same) (by decide)
    · exact fun same => absurd (show 2 = 3 from congrArg List.length same) (by decide)
  have legal : text ∈ validBinaryOperators ∨ text.length = 1 := by
    rcases operator_cases text known with ⟨byte, rfl, -⟩ | ⟨first, second, -, -, -, -, -, double⟩
    · exact .inr rfl
    · exact .inl double
  simp only [if_neg notBars]
  by_cases double : text ∈ validBinaryOperators
  · rw [if_pos double]
  · rw [if_neg double, if_pos (legal.resolve_left double)]

theorem handleTextBlock_type {token : Token}
    (scanned : handleTextBlock filename place text = .ok (token, behind)) :
    token.type = .textBlock := by
  rw [handleTextBlock] at scanned
  cases opened : skipLineEnd filename place text with
  | error message =>
    rw [opened] at scanned
    cases scanned
  | ok found =>
    simp only [opened, bind, Except.bind] at scanned
    cases indented : skipIndent filename found.1 found.2 with
    | error message =>
      rw [indented] at scanned
      cases scanned
    | ok counted =>
      simp only [indented] at scanned
      split at scanned
      · cases scanned
      · cases lines : scanLines filename counted.1 none counted.2.1 counted.2.2 with
        | error message =>
          rw [lines] at scanned
          cases scanned
        | ok read =>
          rw [lines] at scanned
          cases scanned
          rfl

theorem handleOperators_token {token : Token}
    (scanned : handleOperators filename place text = .ok (token, behind)) :
    token.type = .textBlock ∨ token.value = (scanSymbols place text).1 := by
  rw [handleOperators] at scanned
  simp only at scanned
  split at scanned
  · exact .inl (handleTextBlock_type scanned)
  · right
    split at scanned
    · cases scanned
      rfl
    · split at scanned
      · cases scanned
        rfl
      · cases scanned

theorem scanToken_operator_ne (filename : Str) (known : text ∈ operators)
    (goesOn : ¬Stops text rest) (place : Position) {token : Token}
    (scanned : scanToken filename place (text ++ rest) = .ok (token, behind)) :
    token.content ≠ (.operator, text) := by
  have longer := scanSymbols_longer known goesOn place
  obtain ⟨byte, tail, shape, symbol⟩ := operator_head known
  have step := scanToken_symbol filename symbol place (tail ++ rest)
  rw [← cons_append, ← shape] at step
  rw [step] at scanned
  intro same
  obtain ⟨type, value⟩ : token.type = .operator ∧ token.value = text := Prod.mk.inj same
  rcases handleOperators_token scanned with block | symbols
  · rw [block] at type
    cases type
  · rw [← symbols, value] at longer
    exact absurd longer (Nat.lt_irrefl _)

/-! ## Comments -/

theorem skipLine_line (oneLine : newline ∉ body) (place : Position) (rest : Str) :
    skipLine place (body ++ newline :: rest) = (place.after (body ++ [newline]), rest) := by
  induction body generalizing place with
  | nil => simp [skipLine]
  | cons byte tail ih =>
    have here : byte ≠ newline := fun same => oneLine (by simp [same])
    have later := ih (fun member => oneLine (mem_cons_of_mem _ member)) (place.advance byte)
    simp [skipLine, here, later]

theorem skipLine_end (oneLine : newline ∉ body) (place : Position) :
    skipLine place body = (place.after body, []) := by
  induction body generalizing place with
  | nil => rfl
  | cons byte tail ih =>
    have here : byte ≠ newline := fun same => oneLine (by simp [same])
    have later := ih (fun member => oneLine (mem_cons_of_mem _ member)) (place.advance byte)
    simp [skipLine, here, later]

theorem skipBlock_block (filename : Str) (unclosed : ¬[asterisk, slash] <:+: body)
    (place : Position) (rest : Str) :
    skipBlock filename place (body ++ asterisk :: slash :: rest) =
      .ok (place.after (body ++ [asterisk, slash]), rest) := by
  induction body generalizing place with
  | nil => simp [skipBlock]
  | cons byte tail ih =>
    have noClose : ¬(byte = asterisk ∧
        (tail ++ asterisk :: slash :: rest).head? = some slash) := by
      intro ⟨same, next⟩
      cases tail with
      | nil => exact absurd (some.inj next) (by decide)
      | cons second later =>
        apply unclosed
        have isSlash : second = slash := some.inj next
        rw [same, isSlash]
        exact ⟨[], later, rfl⟩
    have later := ih (fun inside => unclosed (inside.trans (List.suffix_cons _ _).isInfix))
      (place.advance byte)
    rw [cons_append, skipBlock, if_neg noClose, later]
    rfl

/-! ## Tokens -/

/-- What may follow a token for it to end there. -/
def Ends : Lexeme → Str → Prop
  | .operator text _, rest => Stops text rest
  | .word _ _ _ _, rest => ∀ byte ∈ rest.head?, isWordByte byte = false
  | .integer _ _ _, rest => ∀ byte ∈ rest.head?, isDigit byte = false ∧ byte ≠ 46
  | .float _ _ _ _ _ _, rest => ∀ byte ∈ rest.head?, isDigit byte = false
  | .special _ _ _, rest => rest.head? ≠ some singleQuote
  | _, _ => True

theorem scanNumber_integer (isDigits : ∀ byte ∈ digits, isDigit byte = true)
    (ends : ∀ byte ∈ rest.head?, isDigit byte = false ∧ byte ≠ 46) (place : Position) :
    scanNumber place (digits ++ rest) =
      (⟨.integer, digits, place.after digits⟩, place.after digits, rest) := by
  have read := scanWhile_append isDigits (fun byte head => (ends byte head).1) place
  rw [scanNumber, read]
  cases rest with
  | nil => rfl
  | cons point tail =>
    have noPoint := (ends point rfl).2
    cases tail with
    | nil => rfl
    | cons digit more => simp [noPoint]

theorem scanNumber_float {more : Str} {tenth : UInt8}
    (isDigits : ∀ byte ∈ digits, isDigit byte = true)
    (fraction : ∀ byte ∈ tenth :: more, isDigit byte = true)
    (ends : ∀ byte ∈ rest.head?, isDigit byte = false) (place : Position) :
    scanNumber place (digits ++ 46 :: tenth :: more ++ rest) =
      (⟨.float, digits ++ 46 :: tenth :: more, place.after (digits ++ 46 :: tenth :: more)⟩,
        place.after (digits ++ 46 :: tenth :: more), rest) := by
  have whole := @scanWhile_append isDigit _ (46 :: tenth :: (more ++ rest)) isDigits
    (fun byte head => by rw [← some.inj head]; decide) place
  have behind := scanWhile_append fraction ends ((place.after digits).advance 46)
  have isTenth := fraction tenth mem_cons_self
  have shape : digits ++ 46 :: tenth :: more ++ rest =
      digits ++ 46 :: tenth :: (more ++ rest) := by
    simp
  rw [cons_append] at behind
  rw [scanNumber, shape, whole]
  simp [isTenth, behind]

theorem scanToken_text (filename : Str) (lexeme : Lexeme) (ends : Ends lexeme rest)
    (place : Position) :
    scanToken filename place (lexeme.text ++ rest) =
      .ok (⟨lexeme.content.1, lexeme.content.2, place.after lexeme.text⟩,
        place.after lexeme.text, rest) := by
  cases lexeme with
  | punctuation byte type known => simp [Lexeme.text, Lexeme.content, scanToken, known]
  | operator text known => exact scanToken_operator filename known ends place
  | word first tail begins bytes =>
    obtain ⟨simple, noQuote, noSymbol, noDigit, noMarker, -, here⟩ := wordStart_class first begins
    have inside : ∀ byte ∈ first :: tail, isWordByte byte = true := by
      intro byte member
      rcases mem_cons.mp member with rfl | later
      · exact here
      · exact bytes byte later
    have read := scanWhile_append inside ends place
    rw [cons_append] at read
    simp [Lexeme.text, Lexeme.content, scanToken, simple, noQuote, noSymbol, noDigit, noMarker,
      begins, scanKeywords, read]
  | integer first tail digits =>
    obtain ⟨simple, noQuote, noSymbol, -⟩ := digit_class first (digits first mem_cons_self)
    have read := scanNumber_integer digits ends place
    rw [cons_append] at read
    simp [Lexeme.text, Lexeme.content, scanToken, simple, noQuote, noSymbol,
      digits first mem_cons_self, read]
  | float first tail digits tenth more fraction =>
    obtain ⟨simple, noQuote, noSymbol, -⟩ := digit_class first (digits first mem_cons_self)
    have read := scanNumber_float digits fraction ends place
    simpa [Lexeme.text, Lexeme.content, scanToken, simple, noQuote, noSymbol,
      digits first mem_cons_self] using read
  | string quote isQuote pieces fits =>
    have simple : simpleTokens.lookup quote = none := by
      rcases isQuote with rfl | rfl <;> decide
    have read := scanLiteral_pieces isQuote fits (place.advance quote) rest
    have shape : (Lexeme.string quote isQuote pieces fits).text ++ rest =
        quote :: (pieces.flatMap Piece.text ++ quote :: rest) := by
      simp [Lexeme.text]
    rw [shape, scanToken, simple]
    simp only [if_pos isQuote, read, bind, Except.bind]
    rfl
  | special marker isMarker content =>
    obtain ⟨simple, noQuote, noSymbol, noDigit⟩ : simpleTokens.lookup marker = none ∧
        ¬(marker = doubleQuote ∨ marker = singleQuote) ∧ isSymbol marker = false ∧
        isDigit marker = false := by
      rcases isMarker with rfl | rfl <;> decide
    have read := scanQuoted_double filename content rest ends
      ((place.advance marker).advance singleQuote)
    have shape : (Lexeme.special marker isMarker content).text ++ rest =
        marker :: singleQuote :: (content.flatMap Lexeme.double ++ singleQuote :: rest) := by
      simp [Lexeme.text]
    rw [shape, scanToken, simple]
    simp [noQuote, noSymbol, noDigit, isMarker, scanSpecialString, read, bind, Except.bind,
      Lexeme.content, Lexeme.text]
  | textBlock block =>
    have read := handleTextBlock_text filename block place rest
    let behind := (block.text ++ rest).drop bars.length
    have shape : block.text ++ rest = bars ++ behind := by
      simp only [behind, TextBlock.text, append_assoc, drop_left]
    have outside : ∀ byte ∈ behind.head?, isSymbol byte = false := by
      have trailing : behind = block.trailing ++ newline :: (block.indent ++ (block.first ::
          block.content ++ newline :: (block.lines.flatMap TextBlock.lineText ++
            (block.closing ++ bars)))) ++ rest := by
        simp only [behind, TextBlock.text, append_assoc, drop_left]
      intro byte head
      rw [trailing] at head
      cases blanks : block.trailing with
      | nil =>
        rw [blanks] at head
        rw [← some.inj head]
        decide
      | cons blank tail =>
        rw [blanks] at head
        rw [← some.inj head]
        have isBlank := block.trailing_blank blank (by rw [blanks]; exact mem_cons_self)
        exact (space_class blank isBlank.1).2.2.2.2
    have symbols : scanSymbols place (bars ++ behind) = (bars, place.after bars, behind) := by
      have three : bars = [124, 124, 124] := rfl
      have last := @scanSymbols_last 124 (by decide) behind
        (fun next head isSymbol => absurd isSymbol (by simp [outside next head]))
      rw [three]
      show scanSymbols place (124 :: 124 :: 124 :: behind) = _
      rw [scanSymbols_more (by decide) (by decide), scanSymbols_more (by decide) (by decide), last]
      rfl
    have step := @scanToken_symbol filename 124 (by decide) place
      (124 :: 124 :: behind)
    show scanToken filename place (block.text ++ rest) = _
    rw [shape]
    show scanToken filename place (124 :: 124 :: 124 :: behind) = _
    rw [step]
    show handleOperators filename place (bars ++ behind) = _
    rw [handleOperators, symbols]
    simp only [if_true]
    exact read

/-! ## Sources -/

theorem tokenizeFrom_space (filename : Str) (space : isSpace byte = true)
    (turns : Nat) (place : Position) (rest : Str) :
    tokenizeFrom filename (turns + 1) place (byte :: rest) =
      tokenizeFrom filename (turns + 1) (place.advance byte) rest := by
  simp [tokenizeFrom, skipWhitespace, space]

theorem skipWhitespace_visible (visible : isSpace byte = false) (place : Position)
    (rest : Str) : skipWhitespace place (byte :: rest) = (place, byte :: rest) := by
  simp [skipWhitespace, visible]

theorem tokenizeFrom_comment (filename : Str) {second : UInt8}
    (marker : second = slash ∨ second = asterisk) {behind : Position}
    (skipped : handleComments filename place (slash :: second :: body) = .ok (behind, rest))
    (turns : Nat) :
    tokenizeFrom filename (turns + 1) place (slash :: second :: body) =
      tokenizeFrom filename turns behind rest := by
  have visible : isSpace slash = false := by decide
  have comment : atComment (slash :: second :: body) = true := by
    simp [atComment, marker]
  simp [tokenizeFrom, skipWhitespace_visible visible, comment, skipped, bind, Except.bind]

theorem tokenizeFrom_gap (filename : Str) (gap : List Blank) (rest : Str)
    (enough : (gapText gap ++ rest).length ≤ turns) (place : Position) :
    ∃ left, rest.length ≤ left ∧
      tokenizeFrom filename turns place (gapText gap ++ rest) =
        tokenizeFrom filename left (place.after (gapText gap)) rest := by
  induction gap generalizing turns place with
  | nil => exact ⟨turns, enough, rfl⟩
  | cons blank gap ih =>
    have shape : gapText (blank :: gap) ++ rest = blank.text ++ (gapText gap ++ rest) := by
      simp [gapText]
    have places : place.after (gapText (blank :: gap)) =
        (place.after blank.text).after (gapText gap) := by
      simp [gapText]
    rw [shape, length_append] at enough
    rw [shape, places]
    cases turns with
    | zero =>
      cases blank <;> simp [Blank.text] at enough
    | succ turns =>
      cases blank with
      | space byte isSpace =>
        have bound : (gapText gap ++ rest).length ≤ turns + 1 := by omega
        obtain ⟨left, many, same⟩ := ih bound (place.advance byte)
        exact ⟨left, many, (tokenizeFrom_space filename isSpace turns place _).trans same⟩
      | line body oneLine =>
        have bound : (gapText gap ++ rest).length ≤ turns := by
          simp only [Blank.text, length_cons] at enough
          omega
        obtain ⟨left, many, same⟩ := ih bound (place.after (Blank.line body oneLine).text)
        refine ⟨left, many, Eq.trans ?_ same⟩
        have text : (Blank.line body oneLine).text ++ (gapText gap ++ rest) =
            slash :: slash :: (body ++ newline :: (gapText gap ++ rest)) := by
          simp [Blank.text]
        rw [text]
        apply tokenizeFrom_comment filename (.inl rfl)
        simp [handleComments, skipLine_line oneLine, Blank.text]
      | block body unclosed =>
        have bound : (gapText gap ++ rest).length ≤ turns := by
          simp only [Blank.text, length_cons] at enough
          omega
        obtain ⟨left, many, same⟩ := ih bound (place.after (Blank.block body unclosed).text)
        refine ⟨left, many, Eq.trans ?_ same⟩
        have text : (Blank.block body unclosed).text ++ (gapText gap ++ rest) =
            slash :: asterisk :: (body ++ asterisk :: slash :: (gapText gap ++ rest)) := by
          simp [Blank.text]
        have differs : ¬asterisk = slash := by decide
        rw [text]
        apply tokenizeFrom_comment filename (.inr rfl)
        simp [handleComments, differs, skipBlock_block filename unclosed, Blank.text]

theorem text_head (lexeme : Lexeme) : ∃ byte tail, lexeme.text = byte :: tail ∧
    isSpace byte = false ∧ (byte = slash → lexeme.IsOperator) := by
  cases lexeme with
  | punctuation byte type known =>
    obtain ⟨visible, -, -, -, noSymbol⟩ := punctuation_class byte (by rw [known]; rfl)
    refine ⟨byte, [], rfl, visible, fun same => ?_⟩
    rw [same] at noSymbol
    exact absurd noSymbol (by decide)
  | operator text known =>
    obtain ⟨byte, tail, shape, symbol⟩ := operator_head known
    exact ⟨byte, tail, shape, (symbol_class byte symbol).2.2.1, fun _ => trivial⟩
  | word first tail begins bytes =>
    obtain ⟨-, -, noSymbol, -, -, visible, -⟩ := wordStart_class first begins
    refine ⟨first, tail, rfl, visible, fun same => ?_⟩
    rw [same] at noSymbol
    exact absurd noSymbol (by decide)
  | integer first tail digits =>
    obtain ⟨-, -, noSymbol, visible⟩ := digit_class first (digits first mem_cons_self)
    refine ⟨first, tail, rfl, visible, fun same => ?_⟩
    rw [same] at noSymbol
    exact absurd noSymbol (by decide)
  | float first tail digits tenth more fraction =>
    obtain ⟨-, -, noSymbol, visible⟩ := digit_class first (digits first mem_cons_self)
    refine ⟨first, tail ++ 46 :: tenth :: more, rfl, visible, fun same => ?_⟩
    rw [same] at noSymbol
    exact absurd noSymbol (by decide)
  | string quote isQuote pieces fits =>
    refine ⟨quote, _, rfl, ?_, fun same => ?_⟩
    · rcases isQuote with rfl | rfl <;> decide
    · rw [same] at isQuote
      exact absurd isQuote (by decide)
  | special marker isMarker content =>
    refine ⟨marker, _, rfl, ?_, fun same => ?_⟩
    · rcases isMarker with rfl | rfl <;> decide
    · rw [same] at isMarker
      exact absurd isMarker (by decide)
  | textBlock block => exact ⟨124, _, rfl, by decide, fun same => absurd same (by decide)⟩

theorem tokenizeFrom_scan (filename : Str) (lexeme : Lexeme)
    (noComment : atComment (lexeme.text ++ rest) = false) (turns : Nat) (place : Position) :
    tokenizeFrom filename (turns + 1) place (lexeme.text ++ rest) = (do
      let (token, place, rest) ← scanToken filename place (lexeme.text ++ rest)
      let tokens ← tokenizeFrom filename turns place rest
      .ok (token :: tokens)) := by
  obtain ⟨byte, tail, shape, visible, -⟩ := text_head lexeme
  rw [shape, cons_append] at noComment ⊢
  simp [tokenizeFrom, skipWhitespace_visible visible, noComment]

theorem atComment_text {rest : Str} (comment : atComment (lexeme.text ++ rest) = true) :
    lexeme.text = [slash] ∧ (rest.head? = some slash ∨ rest.head? = some asterisk) := by
  obtain ⟨byte, tail, shape, -, isOperator⟩ := text_head lexeme
  have begins : ∃ second more, lexeme.text ++ rest = slash :: second :: more ∧
      (second = slash ∨ second = asterisk) := by
    unfold atComment at comment
    split at comment
    · rename_i first second more text
      obtain ⟨same, marker⟩ : first = slash ∧ (second = slash ∨ second = asterisk) := by
        simpa using comment
      exact ⟨second, more, by rw [text, same], marker⟩
    · cases comment
  obtain ⟨second, more, text, marker⟩ := begins
  rw [shape, cons_append] at text
  obtain ⟨same, behind⟩ := cons.inj text
  have operator := isOperator same
  cases lexeme with
  | operator written known =>
    have alone : tail = [] := by
      have known' : byte :: tail ∈ operators := shape ▸ known
      rcases operator_cases _ known' with ⟨only, one, -⟩ | ⟨first, second, -, -, -, -, -, double⟩
      · exact (cons.inj one).2
      · have noSlash : ∀ text ∈ validBinaryOperators, text.head? ≠ some slash := by decide
        exact absurd (congrArg some same) (noSlash _ double)
    rw [alone, nil_append] at behind
    refine ⟨by rw [shape, same, alone], ?_⟩
    rw [behind]
    exact marker.imp (congrArg some) (congrArg some)
  | _ => exact absurd operator id

/-- A byte that goes on no token and is no sign. -/
def IsBorder (byte : UInt8) : Prop :=
  isWordByte byte = false ∧ isDigit byte = false ∧ byte ≠ 46 ∧ byte ≠ singleQuote

theorem ends_of_border (other : ¬lexeme.IsOperator)
    (border : ∀ byte ∈ rest.head?, IsBorder byte) : Ends lexeme rest := by
  cases lexeme with
  | operator text known => exact absurd trivial other
  | word first tail begins bytes => exact fun byte head => (border byte head).1
  | integer first tail digits =>
    exact fun byte head => ⟨(border byte head).2.1, (border byte head).2.2.1⟩
  | float first tail digits tenth more fraction => exact fun byte head => (border byte head).2.1
  | special marker isMarker content =>
    intro head
    exact (border singleQuote head).2.2.2 rfl
  | _ => trivial

theorem gapText_border {gap : List Blank} (nonempty : gap ≠ []) (rest : Str) :
    ∀ byte ∈ (gapText gap ++ rest).head?, IsBorder byte := by
  have isSlash : IsBorder slash := ⟨by decide, by decide, by decide, by decide⟩
  cases gap with
  | nil => exact absurd rfl nonempty
  | cons blank gap =>
    intro byte head
    cases blank with
    | space space isSpace =>
      obtain ⟨noWord, noDigit, noPoint, noQuote, -⟩ := space_class space isSpace
      rw [← some.inj head]
      exact ⟨noWord, noDigit, noPoint, noQuote⟩
    | line body oneLine =>
      rw [← some.inj head]
      exact isSlash
    | block body unclosed =>
      rw [← some.inj head]
      exact isSlash

theorem operator_border (operator : lexeme.IsOperator) (rest : Str) :
    ∀ byte ∈ (lexeme.text ++ rest).head?, IsBorder byte := by
  cases lexeme with
  | operator text known =>
    obtain ⟨first, tail, shape, symbol⟩ := operator_head known
    obtain ⟨-, noQuote, -, noWord, noDigit, noPoint⟩ := symbol_class first symbol
    intro byte head
    simp only [Lexeme.text, shape, cons_append, List.head?_cons, Option.mem_def, some.injEq] at head
    rw [← head]
    exact ⟨noWord, noDigit, noPoint, fun same => noQuote (.inr same)⟩
  | _ => exact absurd operator id

theorem ends_of_mayTouch {left right : Lexeme} (other : ¬left.IsOperator)
    (touch : left.MayTouch right) (rest : Str) : Ends left (right.text ++ rest) := by
  rcases touch.1 with operator | operator | punctuation | ⟨punctuation, noFraction⟩
  · exact absurd operator other
  · exact ends_of_border other (operator_border operator rest)
  · cases left with
    | punctuation byte type known => trivial
    | _ => exact absurd punctuation id
  · cases right with
    | punctuation byte type known =>
      obtain ⟨-, noWord, noDigit, noQuote, -⟩ := punctuation_class byte (by rw [known]; rfl)
      cases left with
      | operator text known => exact absurd trivial other
      | word first tail begins bytes =>
        intro next head
        rw [← some.inj head]
        exact noWord
      | integer first tail digits =>
        intro next head
        rw [← some.inj head]
        exact ⟨noDigit, fun point => noFraction ⟨trivial, congrArg (· :: []) point⟩⟩
      | float first tail digits tenth more fraction =>
        intro next head
        rw [← some.inj head]
        exact noDigit
      | special marker isMarker content => exact fun head => noQuote (some.inj head)
      | _ => trivial
    | _ => exact absurd punctuation id

theorem ends_of_apart {gap : List Blank}
    (apart : List.IsChain (fun left right => left.2 ≠ [] ∨ left.1.MayTouch right.1)
      ((lexeme, gap) :: items)) (other : ¬lexeme.IsOperator) (comment : Option Str) :
    Ends lexeme (gapText gap ++ itemsText comment items) := by
  by_cases nonempty : gap = []
  · rw [nonempty]
    cases items with
    | nil =>
      apply ends_of_border other
      intro byte head
      cases comment with
      | none => cases head
      | some body =>
        rw [← some.inj head]
        exact ⟨by decide, by decide, by decide, by decide⟩
    | cons item items =>
      have touch := (List.isChain_cons_cons.mp apart).1.resolve_left (fun some => some nonempty)
      exact ends_of_mayTouch other touch _
  · exact ends_of_border other (gapText_border nonempty _)

theorem tokenizeFrom_item (filename : Str) (ends : Ends lexeme rest)
    (enough : (lexeme.text ++ rest).length ≤ turns) (place : Position) :
    ∃ left, rest.length ≤ left ∧
      tokenizeFrom filename turns place (lexeme.text ++ rest) =
        (tokenizeFrom filename left (place.after lexeme.text) rest).map fun tokens =>
          ⟨lexeme.content.1, lexeme.content.2, place.after lexeme.text⟩ :: tokens := by
  have noComment : atComment (lexeme.text ++ rest) = false := by
    by_contra comment
    obtain ⟨text, next⟩ := atComment_text (Bool.not_eq_false _ ▸ comment)
    obtain ⟨byte, tail, shape, -, isOperator⟩ := text_head lexeme
    rw [shape] at text
    have operator := isOperator (cons.inj text).1
    cases lexeme with
    | operator written known =>
      have stops : Stops written rest := ends
      have last : written = [slash] := by rw [← text, ← shape]; rfl
      rcases next with isSlash | isAsterisk
      · have sign := (stops slash isSlash (by decide)).2
        exact absurd sign (by decide)
      · have sign := (stops asterisk isAsterisk (by decide)).2
        exact absurd sign (by decide)
    | _ => exact operator
  obtain ⟨byte, tail, shape, -⟩ := text_head lexeme
  rw [length_append, shape, length_cons] at enough
  cases turns with
  | zero => omega
  | succ turns =>
    refine ⟨turns, by omega, ?_⟩
    rw [tokenizeFrom_scan filename lexeme noComment turns place, scanToken_text filename lexeme ends]
    simp only [bind, Except.bind]
    cases tokenizeFrom filename turns (place.after lexeme.text) rest <;> rfl

theorem tokenizeFrom_nil (filename : Str) (turns : Nat) (place : Position) :
    tokenizeFrom filename turns place [] = .ok [] := by
  cases turns <;> rfl

theorem tokenizeFrom_end (filename : Str) (oneLine : ∀ body, comment = some body → newline ∉ body)
    (enough : (itemsText comment []).length ≤ turns) (place : Position) :
    tokenizeFrom filename turns place (itemsText comment []) = .ok [] := by
  cases comment with
  | none => exact tokenizeFrom_nil filename turns place
  | some body =>
    cases turns with
    | zero => cases enough
    | succ turns =>
      have skipped : handleComments filename place (slash :: slash :: body) =
          .ok (((place.advance slash).advance slash).after body, []) := by
        simp [handleComments, skipLine_end (oneLine body rfl)]
      exact (tokenizeFrom_comment filename (.inl rfl) skipped turns).trans
        (tokenizeFrom_nil filename turns _)

theorem tokenizeFrom_items (filename : Str) (oneLine : ∀ body, comment = some body → newline ∉ body)
    (apart : items.IsChain fun left right => left.2 ≠ [] ∨ left.1.MayTouch right.1)
    (operators : OperatorsEnd comment items) (enough : (itemsText comment items).length ≤ turns)
    (place : Position) :
    ∃ tokens, tokenizeFrom filename turns place (itemsText comment items) = .ok tokens ∧
      tokens.map Token.content = items.map fun item => item.1.content := by
  induction items generalizing turns place with
  | nil => exact ⟨[], tokenizeFrom_end filename oneLine enough place, rfl⟩
  | cons item items ih =>
    obtain ⟨lexeme, gap⟩ := item
    have ends : Ends lexeme (gapText gap ++ itemsText comment items) := by
      by_cases operator : lexeme.IsOperator
      · cases lexeme with
        | operator text known => exact operators.1 trivial
        | _ => exact absurd operator id
      · exact ends_of_apart apart operator comment
    obtain ⟨left, many, scanned⟩ := tokenizeFrom_item filename ends enough place
    obtain ⟨later, more, skipped⟩ := tokenizeFrom_gap filename gap _ many
      (place.after lexeme.text)
    obtain ⟨tokens, rest, contents⟩ := ih (List.isChain_of_isChain_cons apart) operators.2 more
      ((place.after lexeme.text).after (gapText gap))
    refine ⟨⟨lexeme.content.1, lexeme.content.2, place.after lexeme.text⟩ :: tokens, ?_,
      congrArg (lexeme.content :: ·) contents⟩
    show tokenizeFrom filename turns place
      (lexeme.text ++ (gapText gap ++ itemsText comment items)) = _
    rw [scanned, skipped, rest]
    rfl

theorem operatorsEnd_of_tokenizeFrom (filename : Str)
    (apart : items.IsChain fun left right => left.2 ≠ [] ∨ left.1.MayTouch right.1)
    (enough : (itemsText comment items).length ≤ turns) {tokens : List Token}
    (scanned : tokenizeFrom filename turns place (itemsText comment items) = .ok tokens)
    (contents : tokens.map Token.content = items.map fun item => item.1.content) :
    OperatorsEnd comment items ∨ OpensComment comment items := by
  induction items generalizing turns place tokens with
  | nil => exact .inl trivial
  | cons item items ih =>
    obtain ⟨lexeme, gap⟩ := item
    let rest := gapText gap ++ itemsText comment items
    by_cases ends : Ends lexeme rest
    · obtain ⟨left, many, step⟩ := tokenizeFrom_item filename ends enough place
      obtain ⟨later, more, skipped⟩ := tokenizeFrom_gap filename gap _ many
        (place.after lexeme.text)
      have whole := step.symm.trans scanned
      rw [skipped] at whole
      cases remaining : tokenizeFrom filename later
          ((place.after lexeme.text).after (gapText gap)) (itemsText comment items) with
      | error message =>
        rw [remaining] at whole
        cases whole
      | ok others =>
        rw [remaining] at whole
        have all := ok.inj whole
        rw [← all] at contents
        have tail := (cons.inj contents).2
        have here : lexeme.IsOperator → Stops lexeme.text rest := by
          cases lexeme with
          | operator text known => exact fun _ => ends
          | _ => exact fun operator => absurd operator id
        exact (ih (List.isChain_of_isChain_cons apart) more remaining tail).imp
          (fun later => ⟨here, later⟩) .inr
    · -- the operator runs into a symbol
      cases lexeme with
      | operator text known =>
        by_cases comment' : atComment (text ++ rest) = true
        · exact .inr (.inl (@atComment_text (.operator text known) _ comment'))
        · exfalso
          have noComment : atComment (text ++ rest) = false := by simpa using comment'
          obtain ⟨byte, tail, shape, -⟩ := operator_head known
          have some' : 1 ≤ (text ++ rest).length := by
            rw [shape]
            exact Nat.succ_le_succ (Nat.zero_le _)
          have bound : (text ++ rest).length ≤ turns := enough
          cases turns with
          | zero => omega
          | succ turns =>
            have step := tokenizeFrom_scan filename (.operator text known) noComment turns place
            have whole := step.symm.trans scanned
            cases first : scanToken filename place (text ++ rest) with
            | error message =>
              rw [show (Lexeme.operator text known).text ++ rest = text ++ rest from rfl,
                first] at whole
              cases whole
            | ok found =>
              rw [show (Lexeme.operator text known).text ++ rest = text ++ rest from rfl,
                first] at whole
              simp only [bind, Except.bind] at whole
              cases others : tokenizeFrom filename turns found.2.1 found.2.2 with
              | error message =>
                rw [others] at whole
                cases whole
              | ok behind =>
                rw [others] at whole
                rw [← ok.inj whole] at contents
                exact scanToken_operator_ne filename known ends place first
                  (cons.inj contents).1
      | _ => exact absurd (ends_of_apart apart id comment) ends

/-- The scanner gives back the tokens of every rendering in which each operator ends in front of
what follows it, and of no other one, except where a slash and what follows it open a comment. -/
theorem tokenize_rendering (filename : Str) (rendering : Rendering) :
    (OperatorsEnd rendering.comment rendering.items →
      ∃ tokens, tokenize filename rendering.text = .ok tokens ∧
        tokens.map Token.content = rendering.contents) ∧
    ((∃ tokens, tokenize filename rendering.text = .ok tokens ∧
        tokens.map Token.content = rendering.contents) →
      OperatorsEnd rendering.comment rendering.items ∨
        OpensComment rendering.comment rendering.items) := by
  obtain ⟨left, enough, skipped⟩ := tokenizeFrom_gap filename rendering.front
    (itemsText rendering.comment rendering.items) le_rfl ⟨1, 1⟩
  constructor
  · intro operators
    obtain ⟨tokens, scanned, contents⟩ := tokenizeFrom_items filename rendering.comment_line
      rendering.apart operators enough (Position.after ⟨1, 1⟩ (gapText rendering.front))
    exact ⟨tokens, skipped.trans scanned, contents⟩
  · intro ⟨tokens, scanned, contents⟩
    exact operatorsEnd_of_tokenizeFrom filename rendering.apart enough
      (skipped.symm.trans scanned) contents

theorem tokenize_not_rendering :
    ¬∀ rendering : Rendering, ∃ tokens, tokenize [] rendering.text = .ok tokens ∧
      tokens.map Token.content = rendering.contents := by
  intro scans
  let rendering : Rendering := {
    front := []
    items := [(.operator [43] (by decide), [.block [] (by decide)]),
      (.word 97 [] rfl fun _ member => (nomatch member), [])]
    comment := none
    comment_line := fun body none => (nomatch none)
    apart := .cons_cons (.inl (cons_ne_nil _ _)) (.singleton _) }
  obtain ⟨tokens, scanned, -⟩ := scans rendering
  have text : rendering.text = lit "+/**/a" := by decide
  have failed : tokenize [] (lit "+/**/a") = .error (lit "Error operator:+/**/") := by
    decide
  rw [text, failed] at scanned
  cases scanned

end Jst.Verif.Layout
