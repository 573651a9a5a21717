import Jst.Common.ArtifactDescription
/-!
# Hexadecimal strings

A hexadecimal string is decoded in pairs, each of them by the number parser of the library.
-/
namespace Jst

open Number

/-- `std::stoul` in base 16 — throws without digits and out of range; a negative number wraps
around. -/
def stoulHex (text : Str) : Option Nat :=
  let (negative, rest) := readSign (text.dropWhile isSpace)
  let marked := (rest.take 2).map toLower = [48, 120] ∧ (readHexDigits (rest.drop 2)).1 ≠ []
  let (digits, _) := readHexDigits (if marked then rest.drop 2 else rest)
  let value := digitsValue 16 digits
  if digits.isEmpty ∨ 2 ^ 64 ≤ value then none
  else some (if negative then (2 ^ 64 - value) % 2 ^ 64 else value)

/-- `FromHexString` — the last pair may be a single character. -/
def fromHexString : Str → Option Str
  | [] => some []
  | [digit] => do return [UInt8.ofNat (← stoulHex [digit])]
  | high :: low :: rest => do
    let byte ← stoulHex [high, low]
    return UInt8.ofNat byte :: (← fromHexString rest)

end Jst
