import Jst.Common.HexString
/-!
# Hexadecimal strings are read back

What is written is read back. The number parser also takes blanks and signs in front of a digit and
ignores what follows it, so other texts are read as well.
-/
namespace Jst.Verif.HexStrings

open Number

/-! ## Single pairs -/

/-- A hexadecimal digit. -/
def isHex (byte : UInt8) : Bool := (hexDigit byte).isSome

/-- A blank or a sign. -/
def isLead (byte : UInt8) : Bool := isSpace byte || byte = 43 || byte = 45

theorem hexDigit_facts (byte : UInt8) {value : Nat} (found : hexDigit byte = some value) :
    isSpace byte = false ∧ byte ≠ 43 ∧ byte ≠ 45 ∧ value < 16 ∧
      JsonString.hexDigit value = toLower byte := by
  have every : ∀ byte : UInt8, ∀ value ∈ hexDigit byte, isSpace byte = false ∧ byte ≠ 43 ∧
      byte ≠ 45 ∧ value < 16 ∧ JsonString.hexDigit value = toLower byte :=
    forall_byte (by decide +kernel)
  exact every byte value found

theorem isLead_digit {byte : UInt8} (digit : isHex byte) : isLead byte = false := by
  obtain ⟨value, found⟩ := isSome_iff_exists.mp digit
  have ⟨space, plus, minus, _⟩ := hexDigit_facts byte found
  simp [isLead, space, plus, minus]

theorem readSign_cons (byte : UInt8) (rest : Str) : readSign (byte :: rest) =
    (byte == 45, if byte = 45 ∨ byte = 43 then rest else byte :: rest) := by
  unfold readSign
  split <;> simp_all

theorem stoulHex_pair {high low : UInt8} {first second : Nat} (one : hexDigit high = some first)
    (two : hexDigit low = some second) : stoulHex [high, low] = some (16 * first + second) := by
  have ⟨space, plus, minus, small, _⟩ := hexDigit_facts high one
  have ⟨_, _, _, small', _⟩ := hexDigit_facts low two
  simp [stoulHex, space, readSign_cons, plus, minus, readHexDigits, one, two, digitsValue]
  omega

theorem stoulHex_short (text : Str) (short : text.length ≤ 2) : (stoulHex text).isSome =
    (readSign (text.dropWhile isSpace)).2.head?.any isHex := by
  have length : (readSign (text.dropWhile isSpace)).2.length ≤ 2 := by
    refine le_trans ?_ ((List.dropWhile_sublist isSpace).length_le.trans short)
    unfold readSign
    split <;> simp_all
  have small : ∀ byte, (hexDigit byte).getD 0 < 16 := fun byte => by
    cases found : hexDigit byte with
    | none => simp
    | some value => exact (hexDigit_facts byte found).2.2.2.1
  match same : readSign (text.dropWhile isSpace), length with
  | (_, []), _ => simp [stoulHex, same, readHexDigits]
  | (_, [first]), _ =>
    have := small first
    cases one : hexDigit first <;> simp_all [stoulHex, readHexDigits, isHex, digitsValue]
    omega
  | (_, [first, second]), _ =>
    have := small first
    have := small second
    cases one : hexDigit first <;> cases two : hexDigit second <;>
      simp_all [stoulHex, readHexDigits, isHex, digitsValue] <;> omega

theorem stoulHex_isSome (high : UInt8) (rest : Str) (short : rest.length ≤ 1) :
    (stoulHex (high :: rest)).isSome = (isHex high || isLead high && rest.any isHex) := by
  rw [stoulHex_short _ (by simpa using short)]
  have digit := @isLead_digit high
  match rest, short with
  | [], _ => 
    by_cases space : isSpace high <;> simp [space, readSign, isLead] at digit ⊢ <;> grind 
  | [low], _ =>
    have digit' := @isLead_digit low
    by_cases space : isSpace high <;> by_cases space' : isSpace low <;>
      simp [space, space', readSign, isLead] at digit digit' ⊢ <;> grind

/-! ## Texts -/

/-- A text in pairs; the last one may be a single character. -/
def pairs : Str → List Str
  | [] => []
  | [digit] => [[digit]]
  | high :: low :: rest => [high, low] :: pairs rest

/-- A pair that begins with a digit, or with a blank or a sign in front of one. -/
def isReadable : Str → Bool
  | [] => false
  | high :: rest => isHex high || isLead high && rest.any isHex

theorem fromHexString_isSome (text : Str) :
    (fromHexString text).isSome = (pairs text).all isReadable := by
  induction text using pairs.induct with
  | case1 => rfl
  | case2 digit =>
    have read := stoulHex_isSome digit [] (by simp)
    cases found : stoulHex [digit] <;> simp_all [fromHexString, pairs, isReadable]
  | case3 high low rest step =>
    have read := stoulHex_isSome high [low] (by simp)
    cases found : stoulHex [high, low] with
    | none => simp_all [fromHexString, pairs, isReadable]
    | some byte => cases later : fromHexString rest <;> simp_all [fromHexString, pairs, isReadable]

theorem fromHexString_digits {text : Str} (proper : text.length % 2 = 0 ∧ isHexString text) :
    ∃ result, fromHexString text = some result ∧ toHexString result = text.map toLower := by
  induction text using pairs.induct with
  | case1 => exact ⟨[], rfl, rfl⟩
  | case2 digit => simp at proper
  | case3 high low rest step =>
    have even : (rest.length + 1 + 1) % 2 = rest.length % 2 := by omega
    simp only [isHexString, length_cons, List.all_cons, and_eq_true, even,
      isSome_iff_exists] at proper step
    obtain ⟨even, ⟨first, one⟩, ⟨second, two⟩, digits⟩ := proper
    have ⟨_, _, _, small, lower⟩ := hexDigit_facts high one
    have ⟨_, _, _, small', lower'⟩ := hexDigit_facts low two
    obtain ⟨result, read, written⟩ := step ⟨even, digits⟩
    have high : (16 * first + second) / 16 = first := by omega
    have low : (16 * first + second) % 16 = second := by omega
    have small : (16 * first + second) % 256 = 16 * first + second := by omega
    refine ⟨UInt8.ofNat (16 * first + second) :: result, ?_, ?_⟩
    · simp [fromHexString, stoulHex_pair one two, read]
    · simp only [toHexString] at written
      simp [toHexString, written, high, low, lower, lower', small]

theorem fromHexString_toHexString (bytes : Str) :
    fromHexString (toHexString bytes) = some bytes := by
  induction bytes with
  | nil => rfl
  | cons byte rest step =>
    have digits : ∀ digit < 16, hexDigit (JsonString.hexDigit digit) = some digit := by decide
    have small := byte.toNat_lt
    have read := stoulHex_pair (digits (byte.toNat / 16) (by omega))
      (digits (byte.toNat % 16) (by omega))
    rw [Nat.div_add_mod] at read
    simp only [toHexString, flatMap_cons, cons_append, nil_append, fromHexString] at step ⊢
    rw [read, step]
    simp

/-- A text is decoded just if it consists of an even number of digits, and then read back. -/
structure Decodes (text : Str) : Prop where
  accepted : (fromHexString text).isSome ↔ text.length % 2 = 0 ∧ isHexString text
  lower : text.length % 2 = 0 ∧ isHexString text → ∀ result ∈ fromHexString text,
    toHexString result = text.map toLower

/-- What is written is decoded; texts are decoded properly unless all pairs can be read but some are
not made of two digits. -/
theorem fromHexString_decodes (bytes text : Str) :
    fromHexString (toHexString bytes) = some bytes ∧
    (Decodes text ↔
      (text.length % 2 = 0 ∧ isHexString text) ∨ ∃ pair ∈ pairs text, ¬ isReadable pair) := by
  refine ⟨fromHexString_toHexString bytes, ?_⟩
  have readable : (fromHexString text).isSome ↔ ∀ pair ∈ pairs text, isReadable pair := by
    rw [fromHexString_isSome, List.all_eq_true]
  constructor
  · intro correct
    by_cases some : (fromHexString text).isSome
    · exact .inl (correct.accepted.mp some)
    · rw [readable] at some
      push Not at some
      exact .inr (by simpa using some)
  · intro condition
    constructor
    · constructor
      · intro some
        exact condition.resolve_right fun ⟨pair, member, unread⟩ =>
          unread (readable.mp some pair member)
      · intro proper
        obtain ⟨result, found, -⟩ := fromHexString_digits proper
        rw [found]
        rfl
    · intro proper result found
      obtain ⟨result', found', lower⟩ := fromHexString_digits proper
      rw [found'] at found
      cases found
      exact lower

theorem fromHexString_malformed :
    fromHexString (lit "+f1g f") = some [15, 1, 15] ∧ ¬ ∀ text, Decodes text := by
  refine ⟨by decide, fun decodes => ?_⟩
  have proper := (decodes (lit "+f1g f")).accepted.mp (by decide)
  exact absurd proper.2 (by decide)

end Jst.Verif.HexStrings
