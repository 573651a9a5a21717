import Mathlib.Data.List.Basic
import Jst.Data.Bytes
/-!
# Numbers and their texts

The conversions of the C and C++ standard library between texts, doubles and integers that the
program calls: `atol`, `stol`, `stod`, `lround`, `round` and the casts to `int`. A double is a
binary64 number; a conversion to an integer type that cannot hold the result yields the smallest
value of that type, as the conversion instructions of x86-64 do.
-/
namespace Jst.Number

open Float.Model (UnpackedFloat Format)
open Float.Model.UnpackedFloat (Sign)

/-- A `double`. -/
abbrev Double := Float.Model

/-- The smallest `long`. -/
def longMin : Int := -2 ^ 63

/-- The largest `long`. -/
def longMax : Int := 2 ^ 63 - 1

/-- The smallest `int`. -/
def intMin : Int := -2 ^ 31

/-- The largest `int`. -/
def intMax : Int := 2 ^ 31 - 1

def isSpace (byte : UInt8) : Bool := byte = 32 || 9 ≤ byte && byte ≤ 13

def isDigit (byte : UInt8) : Bool := 48 ≤ byte && byte ≤ 57

def toLower (byte : UInt8) : UInt8 := if 65 ≤ byte && byte ≤ 90 then byte + 32 else byte

/-- The value of a hexadecimal digit. -/
def hexDigit (byte : UInt8) : Option Nat :=
  if isDigit byte then some (byte.toNat - 48)
  else if 97 ≤ toLower byte && toLower byte ≤ 102 then some ((toLower byte).toNat - 87)
  else none

/-- The number that a list of digits denotes in a base. -/
def digitsValue (base : Nat) (digits : List Nat) : Nat :=
  digits.foldl (fun value digit => base * value + digit) 0

/-- The decimal digits at the start of a text and what follows them. -/
def readDigits (text : Str) : List Nat × Str :=
  ((text.takeWhile isDigit).map fun byte => byte.toNat - 48, text.dropWhile isDigit)

/-- The hexadecimal digits at the start of a text and what follows them. -/
def readHexDigits (text : Str) : List Nat × Str :=
  (text.takeWhile (fun byte => (hexDigit byte).isSome) |>.filterMap hexDigit,
    text.dropWhile fun byte => (hexDigit byte).isSome)

/-- Whether a sign at the start of a text is negative, and what follows it. -/
def readSign : Str → Bool × Str
  | 45 :: rest => (true, rest)
  | 43 :: rest => (false, rest)
  | text => (false, text)

/-- A natural number with a sign. -/
def signed (negative : Bool) (value : Nat) : Int := if negative then -value else value

/-- `strtol` in base ten before its result is clamped; `none` if there are no digits. -/
def readInteger (text : Str) : Option Int :=
  let (negative, rest) := readSign (text.dropWhile isSpace)
  let (digits, _) := readDigits rest
  if digits.isEmpty then none else some (signed negative (digitsValue 10 digits))

/-- `std::atol` — zero without digits, the nearest `long` out of range. -/
def atol (text : Str) : Int := max longMin (min longMax ((readInteger text).getD 0))

/-- `std::stol` — throws without digits and out of range. -/
def stol (text : Str) : Option Int :=
  (readInteger text).filter fun value => longMin ≤ value ∧ value ≤ longMax

/-- The exponent behind a number, introduced by one of two letters: zero if there is none. -/
def readExponent (letter : UInt8) (text : Str) : Int :=
  match text with
  | first :: rest =>
    if toLower first = letter then
      let (negative, rest) := readSign rest
      signed negative (digitsValue 10 (readDigits rest).1)
    else 0
  | [] => 0

/-- The digits behind a decimal point, and what follows. -/
def readFraction (digits : Str → List Nat × Str) : Str → List Nat × Str
  | 46 :: rest => digits rest
  | text => ([], text)

/-- The double nearest to `value * 2 ^ exponent`. -/
def ofBinary (value : Nat) (exponent : Int) : Double :=
  if nonzero : value = 0 then .ofNat 0
  else .pack (UnpackedFloat.mul Format.binary64
    (.finite .positive (value <<< 53) (exponent - 53)
      (by rw [Nat.shiftLeft_eq]; exact Nat.mul_pos (Nat.pos_of_ne_zero nonzero) (by decide)))
    (.finite .positive 1 0 (by decide)))

/-- An unsigned number at the start of a text: its numerator and denominator and the nearest
double. `none` if there are no digits. -/
def readMagnitude (text : Str) : Option (Nat × Nat × Double) :=
  let hex := (text.take 2).map toLower = [48, 120] ∧
    ((readHexDigits (text.drop 2)).1 ++ (readFraction readHexDigits (text.drop 2)).1) ≠ []
  if hex then
    let (whole, rest) := readHexDigits (text.drop 2)
    let (fraction, rest) := readFraction readHexDigits rest
    let value := digitsValue 16 (whole ++ fraction)
    let exponent := readExponent 112 rest - 4 * fraction.length
    some (value * 2 ^ exponent.toNat, 2 ^ (-exponent).toNat, ofBinary value exponent)
  else
    let (whole, rest) := readDigits text
    let (fraction, rest) := readFraction readDigits rest
    let value := digitsValue 10 (whole ++ fraction)
    let exponent := readExponent 101 rest - fraction.length
    if whole ++ fraction = [] then none
    else some (value * 10 ^ exponent.toNat, 10 ^ (-exponent).toNat, .ofScientific value exponent)

/-- A result that `strtod` reports out of range: an infinity, or a number below the normal ones
that is not exact. -/
def outOfRange (numerator denominator : Nat) (result : Double) : Bool :=
  result.isInf ||
    result < ofBinary 1 (-1022) && !decide (denominator ∣ numerator * 2 ^ 1074)

/-- `std::stod` — throws without a number and out of range. -/
def stod (text : Str) : Option Double :=
  let (negative, rest) := readSign (text.dropWhile isSpace)
  let sign := fun value : Double => if negative then -value else value
  if (rest.take 3).map toLower = lit "inf" then
    some (sign (.pack (.infinity .positive)))
  else if (rest.take 3).map toLower = lit "nan" then some (.pack .notANumber)
  else
    match readMagnitude rest with
    | some (numerator, denominator, result) =>
      if outOfRange numerator denominator result then none else some (sign result)
    | none => none

/-- The nearest integer, halves away from zero; `none` for infinities and NaN. -/
def nearest (value : Double) : Option Int :=
  match value.unpack with
  | .infinity _ | .notANumber => none
  | .zero _ => some 0
  | .finite sign mantissa exponent _ =>
    let half := if exponent < 0 then 2 ^ ((-exponent).toNat - 1) else 0
    let magnitude := (mantissa * 2 ^ exponent.toNat + half) / 2 ^ (-exponent).toNat
    some (signed (sign == .negative) magnitude)

def lround (value : Double) : Int :=
  ((nearest value).filter fun value => longMin ≤ value ∧ value ≤ longMax).getD longMin

/-- `static_cast<int>(std::round(value))`. -/
def roundToInt (value : Double) : Int :=
  ((nearest value).filter fun value => intMin ≤ value ∧ value ≤ intMax).getD intMin

/-- `std::to_string` of a natural number. -/
def decimal (number : Nat) : Str := (Nat.toDigits 10 number).map fun digit => digit.toUInt8

/-- A text with zeros in front, at least ten characters wide. -/
def padded (text : Str) : Str := replicate (10 - text.length) 48 ++ text

end Jst.Number
