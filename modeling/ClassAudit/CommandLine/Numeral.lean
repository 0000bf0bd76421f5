import ClassAudit.Bytes

/-!
# Integers on the command line

An integer may be written in decimal, or with a base mark: `0b`, `0o`, `0x`, or a leading
zero for octal. Underscores may divide its digits. Only 64-bit values are taken.
-/

set_option autoImplicit false

namespace ClassAudit

/-- Why a text is not a 64-bit integer. -/
inductive NumeralError where
  | malformed
  | outOfRange
  deriving DecidableEq, Repr

/-- The text of a failed reading. -/
def NumeralError.text : NumeralError → Bytes
  | .malformed => "invalid syntax"
  | .outOfRange => "value out of range"

namespace Numeral

/-- The underscore, which may divide digits. -/
def divider : UInt8 := 0x5F

/-- The value of a digit; letters of either case follow the ten digits. -/
def digit? (byte : UInt8) : Option Nat :=
  if 0x30 ≤ byte && byte ≤ 0x39 then some (byte.toNat - 0x30)
  else if 0x41 ≤ byte && byte ≤ 0x5A then some (byte.toNat - 0x41 + 10)
  else if 0x61 ≤ byte && byte ≤ 0x7A then some (byte.toNat - 0x61 + 10)
  else none

/-- The sign of a numeral, and what follows it. -/
def splitMinus : Bytes → Bool × Bytes
  | 0x2D :: rest => (true, rest)
  | 0x2B :: rest => (false, rest)
  | text => (false, text)

/-- The base that a base letter names. -/
def baseOfLetter? (letter : UInt8) : Option Nat :=
  if letter = 0x62 || letter = 0x42 then some 2
  else if letter = 0x6F || letter = 0x4F then some 8
  else if letter = 0x78 || letter = 0x58 then some 16
  else none

/-- The base of an unsigned numeral, and its digits. A base letter counts only if
something follows it. -/
def splitBase : Bytes → Nat × Bytes
  | 0x30 :: letter :: first :: rest =>
      match baseOfLetter? letter with
      | some base => (base, first :: rest)
      | none => (8, letter :: first :: rest)
  | 0x30 :: rest => (8, rest)
  | digits => (10, digits)

/-- The value of digits that follow a number. Reading stops at the first digit that is no
digit of the base, or that takes the number out of 64 bits. -/
def digitsAfter (base value : Nat) : Bytes → Except NumeralError Nat
  | [] => .ok value
  | byte :: rest =>
      match digit? byte with
      | none => .error .malformed
      | some digit =>
          if base ≤ digit then .error .malformed
          else if uint64Limit ≤ value * base + digit then .error .outOfRange
          else digitsAfter base (value * base + digit) rest

/-- Whether every underscore stands between two digits; `afterDigit` tells whether a digit
went before. -/
def dividersSound (afterDigit : Bool) : Bytes → Bool
  | [] => true
  | [byte] => byte != divider
  | byte :: next :: rest =>
      (byte != divider || (afterDigit && next != divider)) &&
        dividersSound (byte != divider) (next :: rest)

/-- A signed value within 64 bits. -/
def signed (negative : Bool) (magnitude : Nat) : Except NumeralError Int :=
  if negative then
    if int64Limit < magnitude then .error .outOfRange else .ok (-(magnitude : Int))
  else if int64Limit ≤ magnitude then .error .outOfRange
  else .ok magnitude

/-- Reads an integer in the base that its own mark names. -/
def read (text : Bytes) : Except NumeralError Int := do
  let (negative, unsigned) := splitMinus text
  if unsigned.isEmpty then throw .malformed
  let (base, digits) := splitBase unsigned
  let magnitude ← digitsAfter base 0 (digits.filter (· != divider))
  if !dividersSound (base != 10) digits then throw .malformed
  signed negative magnitude

/-- Reads a decimal integer, without underscores. -/
def readDecimal? (text : Bytes) : Option Int :=
  let (negative, digits) := splitMinus text
  if digits.isEmpty then none
  else ((digitsAfter 10 0 digits).bind (signed negative)).toOption

end Numeral

end ClassAudit
