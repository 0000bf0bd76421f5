import ClassAudit.Bytes

/-!
# Double-precision numbers

Decimal numerals are rounded to the nearest double-precision number, a tie to the even
significand. All arithmetic is on whole numbers, so the rounding is exact.
-/

set_option autoImplicit false

namespace ClassAudit

/-- A binary floating-point number of double precision. A finite value is
`significand * 2 ^ exponent`; its significand is below `2 ^ 53`, and at least `2 ^ 52`
unless the exponent is the least one. -/
inductive Binary64 where
  | nan
  | infinite (negative : Bool)
  | finite (negative : Bool) (significand : Nat) (exponent : Int)
  deriving DecidableEq, Repr

/-- A quotient rounded to the nearest whole number, a tie to the even one. -/
def roundedQuotient (numerator denominator : Nat) : Nat :=
  let quotient := numerator / denominator
  let remainder := numerator % denominator
  if 2 * remainder < denominator then quotient
  else if denominator < 2 * remainder then quotient + 1
  else if quotient % 2 = 0 then quotient
  else quotient + 1

/-- The greatest `exponent` with `2 ^ exponent ≤ numerator / denominator`, for positive
numbers. -/
def floorLog2 (numerator denominator : Nat) : Int :=
  let estimate : Int := (Nat.log2 numerator : Int) - (Nat.log2 denominator : Int)
  let reached :=
    if 0 ≤ estimate then denominator * Nat.pow 2 estimate.toNat ≤ numerator
    else denominator ≤ numerator * Nat.pow 2 (-estimate).toNat
  if reached then estimate else estimate - 1

namespace Binary64

/-- The least exponent of a finite value. -/
def leastExponent : Int := -1074

/-- The greatest exponent of a finite value. -/
def greatestExponent : Int := 971

/-- A positive quotient as the nearest double-precision number. -/
def ofQuotient (negative : Bool) (numerator denominator : Nat) : Binary64 :=
  let exponent := max (floorLog2 numerator denominator - 52) leastExponent
  let significand :=
    if 0 ≤ exponent then roundedQuotient numerator (denominator * Nat.pow 2 exponent.toNat)
    else roundedQuotient (numerator * Nat.pow 2 (-exponent).toNat) denominator
  let (significand, exponent) :=
    if significand = 0x20000000000000 then (0x10000000000000, exponent + 1)
    else (significand, exponent)
  if greatestExponent < exponent then .infinite negative
  else .finite negative significand exponent

/-- The number `digits * 10 ^ scale`, rounded. Scales that leave the range on either
side are decided by the number of digits alone. -/
def ofDecimal (negative : Bool) (digits : Nat) (scale : Int) : Binary64 :=
  let size : Int := (decimal digits).length
  if digits = 0 then .finite negative 0 leastExponent
  else if 310 < size + scale then .infinite negative
  else if size + scale < -330 then .finite negative 0 leastExponent
  else if 0 ≤ scale then ofQuotient negative (digits * Nat.pow 10 scale.toNat) 1
  else ofQuotient negative digits (Nat.pow 10 (-scale).toNat)

/-- Whether a number is infinite. -/
def isInfinite : Binary64 → Bool
  | .infinite _ => true
  | _ => false

/-- A whole number, rounded. -/
def ofInt (value : Int) : Binary64 := ofDecimal (value < 0) value.natAbs 0

end Binary64

/-! ## Numerals -/

/-- Whether a byte is a decimal digit. -/
def isDigit (byte : UInt8) : Bool := 0x30 ≤ byte && byte ≤ 0x39

/-- The number that decimal digits denote. -/
def digitsValue (digits : Bytes) : Nat :=
  digits.foldl (fun value digit => value * 10 + (digit.toNat - 0x30)) 0

/-- Splits a leading sign off; the result says whether it was a minus. -/
def splitSign : Bytes → Bool × Bytes
  | 0x2D :: rest => (true, rest)
  | 0x2B :: rest => (false, rest)
  | text => (false, text)

/-- The value of the exponent part of a numeral, which may be missing. -/
def exponentPart? : Bytes → Option Int
  | [] => some 0
  | mark :: rest =>
      if mark = 0x65 || mark = 0x45 then
        let (negative, digits) := splitSign rest
        if digits.isEmpty || !digits.all isDigit then none
        else some (if negative then -(digitsValue digits : Int) else digitsValue digits)
      else none

/-- The number a decimal numeral denotes: digits with an optional point, at least one of
them, and an optional exponent. The result may be infinite. -/
def readDecimal? (text : Bytes) : Option Binary64 := do
  let (negative, unsigned) := splitSign text
  let whole := unsigned.takeWhile isDigit
  let (fraction, rest) :=
    match unsigned.dropWhile isDigit with
    | 0x2E :: after => (after.takeWhile isDigit, after.dropWhile isDigit)
    | after => ([], after)
  guard (!(whole ++ fraction).isEmpty)
  let exponent ← exponentPart? rest
  return .ofDecimal negative (digitsValue (whole ++ fraction)) (exponent - fraction.length)

end ClassAudit
