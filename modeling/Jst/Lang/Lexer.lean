import Mathlib.Data.List.Basic
import Jst.Data.Bytes
/-!
# Lexer

The tokens of the native jst grammar and the scanner that cuts a source text into them. Where the
code keeps an index into the source, the definitions pass on the text from there together with the
line and the column; they return the text and the place behind what they read.
-/
namespace Jst.Lang

/-- `TokenType`, without the types that no token is given. -/
inductive TokenType where
  | braceL | braceR | bracketL | bracketR | comma | dot | parenL | parenR | semicolon
  | identifier | number | operator | stringDouble | stringSingle | textBlock | refString | varString
  | float | integer
  | assert | else | error | false | for | function | if | import | in | local | nullLit | then | true
deriving DecidableEq

/-- A line and a column of the source. -/
structure Position where
  line : Nat
  column : Nat
deriving DecidableEq

/-- `Token`. The file is the same for all tokens of a source. -/
structure Token where
  type : TokenType
  value : Str
  position : Position
deriving DecidableEq

/-- `Token::operator==` — tokens are compared without their places. -/
def Token.content (token : Token) : TokenType × Str := (token.type, token.value)

namespace Lexer

/-- The newline. -/
def newline : UInt8 := 10

/-- The slash. -/
def slash : UInt8 := 47

/-- The asterisk. -/
def asterisk : UInt8 := 42

/-- The equals sign. -/
def equals : UInt8 := 61

/-- The single quote. -/
def singleQuote : UInt8 := 39

/-- The double quote. -/
def doubleQuote : UInt8 := 34

/-- The backslash. -/
def backslash : UInt8 := 92

/-- What opens and closes a text block. -/
def bars : Str := lit "|||"

/-- `kSimpleTokens`. -/
def simpleTokens : List (UInt8 × TokenType) :=
  [(123, .braceL), (125, .braceR), (91, .bracketL), (93, .bracketR), (40, .parenL), (41, .parenR),
    (46, .dot), (44, .comma), (59, .semicolon)]

/-- `kKeywords`. -/
def keywords : List (Str × TokenType) :=
  [(lit "assert", .assert), (lit "else", .else), (lit "error", .error), (lit "false", .false),
    (lit "for", .for), (lit "function", .function), (lit "if", .if), (lit "import", .import),
    (lit "in", .in), (lit "local", .local), (lit "null", .nullLit), (lit "then", .then),
    (lit "true", .true)]

/-- `kSymbols`. -/
def symbols : Str := lit "!:~+-&|^=<>*/%"

/-- `kValidBinaryOperators`. -/
def validBinaryOperators : List Str :=
  [lit "==", lit "!=", lit "<=", lit ">=", lit "&&", lit "||"]

def isSymbol (byte : UInt8) : Bool := symbols.contains byte

def isSpace (byte : UInt8) : Bool := byte = 32 ∨ 9 ≤ byte.toNat ∧ byte.toNat ≤ 13

def isDigit (byte : UInt8) : Bool := 48 ≤ byte.toNat ∧ byte.toNat ≤ 57

def isAlpha (byte : UInt8) : Bool :=
  65 ≤ byte.toNat ∧ byte.toNat ≤ 90 ∨ 97 ≤ byte.toNat ∧ byte.toNat ≤ 122

/-- The bytes that an identifier begins with. -/
def isWordStart (byte : UInt8) : Bool := isAlpha byte || byte = 95

/-- The bytes that an identifier goes on with. -/
def isWordByte (byte : UInt8) : Bool := isAlpha byte || isDigit byte || byte = 95

end Lexer

/-- `Lexer::Advance` — the place behind a byte. -/
def Position.advance (place : Position) (byte : UInt8) : Position :=
  if byte = Lexer.newline then ⟨place.line + 1, 1⟩ else ⟨place.line, place.column + 1⟩

/-- The place behind a text. -/
def Position.after (place : Position) (text : Str) : Position := text.foldl Position.advance place

namespace Lexer

def reportError (filename : Str) (place : Position) (message : Str) : Str :=
  filename ++ lit ":" ++ lit (toString place.line) ++ lit ":" ++ lit (toString place.column) ++
    lit " Error: " ++ message

def skipWhitespace : Position → Str → Position × Str
  | place, [] => (place, [])
  | place, byte :: rest =>
    if isSpace byte then skipWhitespace (place.advance byte) rest else (place, byte :: rest)

/-- The longest text of bytes of a kind, the place behind it and what follows. -/
def scanWhile (kind : UInt8 → Bool) : Position → Str → Str × Position × Str
  | place, [] => ([], place, [])
  | place, byte :: rest =>
    if kind byte then
      let (value, behind) := scanWhile kind (place.advance byte) rest
      (byte :: value, behind)
    else ([], place, byte :: rest)

def scanNumber (place : Position) (text : Str) : Token × Position × Str :=
  let (whole, place, rest) := scanWhile isDigit place text
  match rest with
  | point :: digit :: more =>
    if point = 46 ∧ isDigit digit = true then
      let (fraction, place, rest) := scanWhile isDigit (place.advance point) (digit :: more)
      (⟨.float, whole ++ point :: fraction, place⟩, place, rest)
    else (⟨.integer, whole, place⟩, place, rest)
  | _ => (⟨.integer, whole, place⟩, place, rest)

/-- What a backslash and a byte stand for in a string literal. -/
def escapeMeaning (byte : UInt8) : Str :=
  if byte = 110 then [10]
  else if byte = 116 then [9]
  else if byte = 114 then [13]
  else if byte = backslash ∨ byte = singleQuote ∨ byte = doubleQuote then [byte]
  else [backslash, byte]

/-- The part of `Lexer::ScanLiterals` behind the opening quote. -/
def scanLiteral (quote : UInt8) : (escaped : Bool) → Position → Str →
    Except Str (Str × Position × Str)
  | _, _, [] => .error (lit "Unterminated string literal")
  | .true, place, byte :: rest => do
    let (value, behind) ← scanLiteral quote .false (place.advance byte) rest
    .ok (escapeMeaning byte ++ value, behind)
  | .false, place, byte :: rest =>
    if byte = backslash then scanLiteral quote .true (place.advance byte) rest
    else if byte = quote then .ok ([], place.advance byte, rest)
    else do
      let (value, behind) ← scanLiteral quote .false (place.advance byte) rest
      .ok (byte :: value, behind)

/-- The part of `Lexer::ScanSpecialString` behind the opening quote: two quotes stand for one. -/
def scanQuoted (filename : Str) : Position → Str → Except Str (Str × Position × Str)
  | place, [] => .error (reportError filename place (lit "Unterminated special string"))
  | place, [byte] =>
    if byte = singleQuote then .ok ([], place.advance byte, [])
    else .error (reportError filename (place.advance byte) (lit "Unterminated special string"))
  | place, byte :: next :: rest =>
    if byte = singleQuote then
      if next = singleQuote then do
        let (value, behind) ← scanQuoted filename ((place.advance byte).advance next) rest
        .ok (byte :: value, behind)
      else .ok ([], place.advance byte, next :: rest)
    else do
      let (value, behind) ← scanQuoted filename (place.advance byte) (next :: rest)
      .ok (byte :: value, behind)

def scanSpecialString (filename : Str) (place : Position) :
    Str → Except Str (Token × Position × Str)
  | marker :: quote :: rest =>
    if quote = singleQuote then do
      let type := if marker = 36 then TokenType.varString else .refString
      let (value, place, rest) ←
        scanQuoted filename ((place.advance marker).advance quote) rest
      .ok (⟨type, value, place⟩, place, rest)
    else .error (reportError filename (place.advance marker)
      (lit "Expected single-quote after special prefix"))
  | text => .error (reportError filename (place.after text)
      (lit "Expected single-quote after special prefix"))

def scanKeywords (place : Position) (text : Str) : Token × Position × Str :=
  let (word, place, rest) := scanWhile isWordByte place text
  (⟨(keywords.lookup word).getD .identifier, word, place⟩, place, rest)

/-- The first loop of `Lexer::HandleTextBlock` — only whitespace may follow up to the end of the
line. -/
def skipLineEnd (filename : Str) : Position → Str → Except Str (Position × Str)
  | place, [] => .ok (place, [])
  | place, byte :: rest =>
    if byte = newline then .ok (place.advance byte, rest)
    else if isSpace byte then skipLineEnd filename (place.advance byte) rest
    else .error (reportError filename (place.advance byte)
      (lit "Unexpected non-whitespace after |||"))

/-- The second loop of `Lexer::HandleTextBlock` — the number of blanks in front of the first line.
-/
def skipIndent (filename : Str) : Position → Str → Except Str (Nat × Position × Str)
  | place, [] => .ok (0, place, [])
  | place, byte :: rest =>
    if byte = newline then
      .error (reportError filename place
        (lit "First line of text block (|||) may not contain only whitespace"))
    else if isSpace byte then do
      let (indent, behind) ← skipIndent filename (place.advance byte) rest
      .ok (indent + 1, behind)
    else .ok (0, place, byte :: rest)

/-- The third loop of `Lexer::HandleTextBlock`: within a line, or at its beginning behind a number
of blanks. A line that is indented less than the first one has to be the end. -/
def scanLines (filename : Str) (indent : Nat) : (blanks : Option Nat) → Position → Str →
    Except Str (Str × Position × Str)
  | some (_ + 1), place, [] =>
    .error (reportError filename place (lit "Text block is not terminated with |||"))
  | _, place, [] => .error (reportError filename place (lit "Unterminated text block"))
  | none, place, byte :: rest => do
    let blanks := if byte = newline then some 0 else none
    let (value, behind) ← scanLines filename indent blanks (place.advance byte) rest
    .ok (byte :: value, behind)
  | some blanks, place, byte :: rest =>
    if blanks = 0 ∧ byte = newline then do
      let (value, behind) ← scanLines filename indent (some 0) (place.advance byte) rest
      .ok (byte :: value, behind)
    else if isSpace byte = true ∧ byte ≠ newline then
      scanLines filename indent (if blanks + 1 < indent then some (blanks + 1) else none)
        (place.advance byte) rest
    else
      let marker := (byte :: rest).take 3
      if marker = bars then .ok ([], place.after marker, (byte :: rest).drop 3)
      else .error (reportError filename (place.after marker)
        (lit "Text block is not terminated with |||"))

def handleTextBlock (filename : Str) (place : Position) (text : Str) :
    Except Str (Token × Position × Str) := do
  let (place, rest) ← skipLineEnd filename place text
  let (indent, place, rest) ← skipIndent filename place rest
  if indent = 0 then
    .error (reportError filename place
      (lit "Text block (|||) lines must be prefixed with some non-zero length whitespace"))
  else do
    let (value, place, rest) ← scanLines filename indent none place rest
    .ok (⟨.textBlock, value, place⟩, place, rest)

/-- The part of `Lexer::HandleComments` for a comment up to the end of the line. -/
def skipLine : Position → Str → Position × Str
  | place, [] => (place, [])
  | place, byte :: rest =>
    if byte = newline then (place.advance byte, rest) else skipLine (place.advance byte) rest

/-- The part of `Lexer::HandleComments` for a comment up to its closing marker. -/
def skipBlock (filename : Str) : Position → Str → Except Str (Position × Str)
  | place, [] => .error (reportError filename place (lit "Unterminated multi-line comment"))
  | place, byte :: rest =>
    if byte = asterisk ∧ rest.head? = some slash then
      .ok ((place.advance byte).advance slash, rest.tail)
    else skipBlock filename (place.advance byte) rest

def handleComments (filename : Str) (place : Position) :
    Str → Except Str (Position × Str)
  | first :: second :: rest =>
    let inside := (place.advance first).advance second
    if second = slash then .ok (skipLine inside rest) else skipBlock filename inside rest
  | text => .ok (place, text)

/-- The loop of `Lexer::HandleOperators` — all symbols in a row are one operator, except that `=` in
front of `-` or `+` ends it. -/
def scanSymbols : Position → Str → Str × Position × Str
  | place, [] => ([], place, [])
  | place, byte :: rest =>
    if isSymbol byte then
      if byte = equals ∧ (rest.head? = some 45 ∨ rest.head? = some 43) then
        ([byte], place.advance byte, rest)
      else
        let (value, behind) := scanSymbols (place.advance byte) rest
        (byte :: value, behind)
    else ([], place, byte :: rest)

def handleOperators (filename : Str) (place : Position) (text : Str) :
    Except Str (Token × Position × Str) :=
  let (value, place, rest) := scanSymbols place text
  if value = bars then handleTextBlock filename place rest
  else if value ∈ validBinaryOperators then .ok (⟨.operator, value, place⟩, place, rest)
  else if value.length = 1 then .ok (⟨.operator, value, place⟩, place, rest)
  else .error (lit "Error operator:" ++ value)

def scanToken (filename : Str) (place : Position) :
    Str → Except Str (Token × Position × Str)
  | [] => .error (reportError filename place (lit "Unexpected character: ''"))
  | byte :: rest =>
    match simpleTokens.lookup byte with
    | some type => .ok (⟨type, [byte], place.advance byte⟩, place.advance byte, rest)
    | none =>
      if byte = doubleQuote ∨ byte = singleQuote then do
        let (value, place, rest) ← scanLiteral byte .false (place.advance byte) rest
        let type := if byte = doubleQuote then TokenType.stringDouble else .stringSingle
        .ok (⟨type, value, place⟩, place, rest)
      else if isSymbol byte then handleOperators filename place (byte :: rest)
      else if isDigit byte then .ok (scanNumber place (byte :: rest))
      else if byte = 64 ∨ byte = 36 then scanSpecialString filename place (byte :: rest)
      else if isWordStart byte then .ok (scanKeywords place (byte :: rest))
      else .error (reportError filename (place.advance byte)
        (lit "Unexpected character: '" ++ [byte] ++ lit "'"))

/-- A comment begins here. -/
def atComment : Str → Bool
  | first :: second :: _ => first = slash ∧ (second = slash ∨ second = asterisk)
  | _ => .false

/-- The loop of `Lexer::Tokenize`. Every turn reads at least one byte, so as many turns as the
source has bytes are enough. -/
def tokenizeFrom (filename : Str) : (turns : Nat) → Position → Str → Except Str (List Token)
  | 0, _, _ => .ok []
  | turns + 1, place, text => do
    let (place, text) := skipWhitespace place text
    if text = [] then .ok []
    else if atComment text then do
      let (place, rest) ← handleComments filename place text
      tokenizeFrom filename turns place rest
    else do
      let (token, place, rest) ← scanToken filename place text
      let tokens ← tokenizeFrom filename turns place rest
      .ok (token :: tokens)

def tokenize (filename source : Str) : Except Str (List Token) :=
  tokenizeFrom filename source.length ⟨1, 1⟩ source

end Jst.Lang.Lexer
