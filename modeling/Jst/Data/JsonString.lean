import Mathlib.Data.List.Basic
import Jst.Data.Bytes
/-!
# JSON strings

A string inside a JSON text stands between quotes, with some of its bytes escaped, and has to be
UTF-8. The writer leaves everything as it is but quotes, backslashes and control characters. The
reader goes through the text byte by byte and emits the bytes of the string.
-/
namespace Jst.JsonString

/-- The double quote. -/
def quote : UInt8 := 34

/-- The backslash. -/
def backslash : UInt8 := 92

/-- Where a reader of UTF-8 stands: between two characters, or inside one, with the bounds of the
next byte and the number of bytes behind that one. -/
inductive Utf8 where
  | start
  | tail (low high more : Nat)
deriving DecidableEq

namespace Utf8

/-- The place where a number of bytes of a character is missing. -/
def missing : Nat → Utf8
  | 0 => .start
  | more + 1 => .tail 0x80 0xBF more

/-- What is expected behind a byte, unless UTF-8 does not allow it here. -/
def step : Utf8 → UInt8 → Option Utf8
  | .start, byte =>
    if byte.toNat ≤ 0x7F then some .start
    else if 0xC2 ≤ byte.toNat ∧ byte.toNat ≤ 0xDF then some (.tail 0x80 0xBF 0)
    else if byte.toNat = 0xE0 then some (.tail 0xA0 0xBF 1)
    else if byte.toNat = 0xED then some (.tail 0x80 0x9F 1)
    else if 0xE1 ≤ byte.toNat ∧ byte.toNat ≤ 0xEF then some (.tail 0x80 0xBF 1)
    else if byte.toNat = 0xF0 then some (.tail 0x90 0xBF 2)
    else if 0xF1 ≤ byte.toNat ∧ byte.toNat ≤ 0xF3 then some (.tail 0x80 0xBF 2)
    else if byte.toNat = 0xF4 then some (.tail 0x80 0x8F 2)
    else none
  | .tail low high more, byte =>
    if low ≤ byte.toNat ∧ byte.toNat ≤ high then some (missing more) else none

end Utf8

/-- A string is UTF-8. -/
def IsUtf8 (text : Str) : Prop := text.foldlM Utf8.step .start = some .start

instance (text : Str) : Decidable (IsUtf8 text) := inferInstanceAs (Decidable (_ = _))

/-- A hexadecimal digit. -/
def hexDigit (digit : Nat) : UInt8 := UInt8.ofNat (if digit < 10 then 48 + digit else 87 + digit)

/-- The value of a hexadecimal digit. -/
def hexValue (byte : UInt8) : Option Nat :=
  if 48 ≤ byte.toNat ∧ byte.toNat ≤ 57 then some (byte.toNat - 48)
  else if 65 ≤ byte.toNat ∧ byte.toNat ≤ 70 then some (byte.toNat - 55)
  else if 97 ≤ byte.toNat ∧ byte.toNat ≤ 102 then some (byte.toNat - 87)
  else none

/-- How a byte is written. -/
def escapeByte (byte : UInt8) : Str :=
  if byte = 8 then [backslash, 98]
  else if byte = 9 then [backslash, 116]
  else if byte = 10 then [backslash, 110]
  else if byte = 12 then [backslash, 102]
  else if byte = 13 then [backslash, 114]
  else if byte = quote then [backslash, quote]
  else if byte = backslash then [backslash, backslash]
  else if byte.toNat < 32 then
    [backslash, 117, 48, 48, hexDigit (byte.toNat / 16), hexDigit (byte.toNat % 16)]
  else [byte]

/-- What is written between the quotes. -/
def escape (text : Str) : Str := text.flatMap escapeByte

/-- A JSON text of a string; only UTF-8 has one. -/
def dump (text : Str) : Option Str :=
  if IsUtf8 text then some (quote :: escape text ++ [quote]) else none

/-- The bytes of a code point. -/
def encodePoint (point : Nat) : Str :=
  if point < 0x80 then [UInt8.ofNat point]
  else if point < 0x800 then [UInt8.ofNat (0xC0 + point / 64), UInt8.ofNat (0x80 + point % 64)]
  else if point < 0x10000 then
    [UInt8.ofNat (0xE0 + point / 4096), UInt8.ofNat (0x80 + point / 64 % 64),
      UInt8.ofNat (0x80 + point % 64)]
  else
    [UInt8.ofNat (0xF0 + point / 262144), UInt8.ofNat (0x80 + point / 4096 % 64),
      UInt8.ofNat (0x80 + point / 64 % 64), UInt8.ofNat (0x80 + point % 64)]

/-- Where the reader of a string stands: at a plain byte, behind a backslash, among the digits of
`\u`, or behind a high surrogate, whose low one must be the next. -/
inductive Reading where
  | plain (utf8 : Utf8)
  | escaped
  | hex (high : Option Nat) (digits value : Nat)
  | lowBackslash (high : Nat)
  | lowMarker (high : Nat)
deriving DecidableEq

/-- The byte that a backslash and a letter stand for. -/
def simpleEscape (byte : UInt8) : Option UInt8 :=
  if byte = quote ∨ byte = backslash ∨ byte = 47 then some byte
  else if byte = 98 then some 8
  else if byte = 102 then some 12
  else if byte = 110 then some 10
  else if byte = 114 then some 13
  else if byte = 116 then some 9
  else none

/-- The end of the digits of a `\u`: surrogates have to come in pairs. -/
def finishHex (high : Option Nat) (value : Nat) : Option (Reading × Str) :=
  let isLow := 0xDC00 ≤ value ∧ value ≤ 0xDFFF
  match high with
  | some high =>
    if isLow then
      some (.plain .start, encodePoint (0x10000 + (high - 0xD800) * 0x400 + (value - 0xDC00)))
    else none
  | none =>
    if 0xD800 ≤ value ∧ value ≤ 0xDBFF then some (.lowBackslash value, [])
    else if isLow then none
    else some (.plain .start, encodePoint value)

/-- Read one byte: where the reader stands behind it and what it emits. -/
def readByte : Reading → UInt8 → Option (Reading × Str)
  | .plain utf8, byte =>
    if utf8 = .start ∧ byte = quote then none
    else if utf8 = .start ∧ byte = backslash then some (.escaped, [])
    else if byte.toNat < 32 then none
    else (utf8.step byte).map fun next => (.plain next, [byte])
  | .escaped, byte =>
    if byte = 117 then some (.hex none 0 0, [])
    else (simpleEscape byte).map fun meant => (.plain .start, [meant])
  | .hex high digits value, byte => do
    let digit ← hexValue byte
    if digits = 3 then finishHex high (value * 16 + digit)
    else some (.hex high (digits + 1) (value * 16 + digit), [])
  | .lowBackslash high, byte => if byte = backslash then some (.lowMarker high, []) else none
  | .lowMarker high, byte => if byte = 117 then some (.hex (some high) 0 0, []) else none

/-- Read a text: where the reader stands behind it and what it emitted. -/
def scan : Reading → Str → Option (Reading × Str)
  | reading, [] => some (reading, [])
  | reading, byte :: rest => do
    let (next, emitted) ← readByte reading byte
    let (last, more) ← scan next rest
    some (last, emitted ++ more)

/-- The string that a text between quotes stands for. -/
def unescape (text : Str) : Option Str := do
  let (last, value) ← scan (.plain .start) text
  if last = .plain .start then some value else none

/-! ## Reading what was written -/

theorem length_escape (text : Str) : text.length ≤ (escape text).length := by
  induction text with
  | nil => exact Nat.zero_le _
  | cons byte rest ih =>
    have one : 1 ≤ (escapeByte byte).length := by
      unfold escapeByte
      grind
    show rest.length + 1 ≤ (escapeByte byte ++ escape rest).length
    rw [length_append]
    omega

theorem scan_append (front back : Str) (reading : Reading) : scan reading (front ++ back) = (do
      let (middle, first) ← scan reading front let (last, second) ← scan middle back
      some (last, first ++ second)) := by
  induction front generalizing reading with
  | nil =>
    cases result : scan reading back with
    | none => simp [scan, result]
    | some found => simp [scan, result]
  | cons byte rest ih =>
    cases stepped : readByte reading byte with
    | none => simp [scan, stepped]
    | some found =>
      simp only [cons_append, scan, stepped, ih, bind_eq_bind, bind_some]
      cases first : scan found.1 rest with
      | none => simp
      | some later =>
        cases second : scan later.1 back with
        | none => simp [second]
        | some last => simp [second]

variable {byte : UInt8}

theorem scan_escapeByte_ascii (ascii : byte.toNat < 128) :
    scan (.plain .start) (escapeByte byte) = some (.plain .start, [byte]) := by
  have every : ∀ number, number < 128 →
      scan (.plain .start) (escapeByte (UInt8.ofNat number)) =
        some (.plain .start, [UInt8.ofNat number]) := by
    decide
  have same := every byte.toNat ascii
  rwa [UInt8.ofNat_toNat] at same

theorem escapeByte_high (high : 128 ≤ byte.toNat) : escapeByte byte = [byte] := by
  have differs : ∀ other : UInt8, other.toNat < 128 → byte ≠ other := by
    intro other small same
    rw [same] at high
    omega
  have unescaped : ¬byte.toNat < 32 := by omega
  rw [escapeByte, if_neg (differs 8 (by decide)), if_neg (differs 9 (by decide)),
    if_neg (differs 10 (by decide)), if_neg (differs 12 (by decide)),
    if_neg (differs 13 (by decide)), if_neg (differs quote (by decide)),
    if_neg (differs backslash (by decide)), if_neg unescaped]

theorem readByte_high (utf8 : Utf8) (high : 128 ≤ byte.toNat) :
    readByte (.plain utf8) byte = (utf8.step byte).map fun next => (.plain next, [byte]) := by
  have notQuote : byte ≠ quote := by
    intro same
    rw [same] at high
    exact absurd high (by decide)
  have notBackslash : byte ≠ backslash := by
    intro same
    rw [same] at high
    exact absurd high (by decide)
  have printable : ¬byte.toNat < 32 := by omega
  simp [readByte, notQuote, notBackslash, printable]

/-- The reader of UTF-8 is where a character can begin, or the bytes it expects are above the ASCII
range. -/
def Utf8.Expecting : Utf8 → Prop
  | .start => True
  | .tail low _ _ => 128 ≤ low

theorem Utf8.Expecting.step {utf8 next : Utf8} {byte : UInt8}
    (stepped : utf8.step byte = some next) : next.Expecting := by
  cases utf8 with
  | start =>
    have places : next = .start ∨ ∃ low high more, next = .tail low high more ∧ 128 ≤ low := by
      unfold Utf8.step at stepped
      grind
    rcases places with rfl | ⟨low, high, more, rfl, bound⟩
    · trivial
    · exact bound
  | tail low high more =>
    by_cases inside : low ≤ byte.toNat ∧ byte.toNat ≤ high
    · rw [Utf8.step, if_pos inside] at stepped
      have place := some.inj stepped
      cases more with
      | zero =>
        rw [← place]
        trivial
      | succ more =>
        rw [← place]
        exact Nat.le_refl 128
    · rw [Utf8.step, if_neg inside] at stepped
      cases stepped

theorem scan_escapeByte {utf8 next : Utf8} (expecting : utf8.Expecting)
    (stepped : utf8.step byte = some next) :
    scan (.plain utf8) (escapeByte byte) = some (.plain next, [byte]) := by
  by_cases ascii : byte.toNat < 128
  · cases utf8 with
    | start =>
      have stays : next = .start := by
        have small : byte.toNat ≤ 127 := by omega
        rw [Utf8.step, if_pos small] at stepped
        exact (some.inj stepped).symm
      rw [stays]
      exact scan_escapeByte_ascii ascii
    | tail low high more =>
      -- inside a character no ASCII byte is expected
      have bound : 128 ≤ low := expecting
      rw [Utf8.step, if_neg (by omega)] at stepped
      cases stepped
  · have high : 128 ≤ byte.toNat := by omega
    rw [escapeByte_high high]
    simp [scan, readByte_high utf8 high, stepped]

theorem scan_escape {text : Str} {utf8 last : Utf8} (expecting : utf8.Expecting)
    (valid : text.foldlM Utf8.step utf8 = some last) :
    scan (.plain utf8) (escape text) = some (.plain last, text) := by
  induction text generalizing utf8 with
  | nil =>
    cases valid
    rfl
  | cons byte rest ih =>
    rw [foldlM_cons] at valid
    cases stepped : utf8.step byte with
    | none =>
      rw [stepped] at valid
      cases valid
    | some next =>
      rw [stepped] at valid
      have read := ih (Utf8.Expecting.step stepped) valid
      show scan (.plain utf8) (escapeByte byte ++ escape rest) = _
      rw [scan_append, scan_escapeByte expecting stepped]
      simp [read]

theorem unescape_escape {text : Str} (utf8 : IsUtf8 text) : unescape (escape text) = some text := by
  simp [unescape, @scan_escape text .start .start trivial utf8]

theorem unescape_escape_quote {text : Str} (utf8 : IsUtf8 text) (rest : Str) :
    unescape (escape text ++ quote :: rest) = none := by
  have stops : scan (.plain .start) (quote :: rest) = none := by
    simp [scan, readByte]
  simp [unescape, scan_append, @scan_escape text .start .start trivial utf8, stops]

end Jst.JsonString
