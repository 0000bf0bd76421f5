import ClassAudit.Decimal.Binary64

/-!
# Shortest decimal text

A number is written with the fewest significant digits that read back as the same
number, and of those with the digits nearest to it. Small and large magnitudes take an
exponent.
-/

set_option autoImplicit false

namespace ClassAudit

/-- Decimal digits without trailing zeros, and the power of ten that their first digit
stands for. -/
structure DecimalForm where
  digits : Bytes
  leading : Int
  deriving DecidableEq, Repr

/-- The reals that read back as a number, in quarters of a unit of its last place: the
interval's ends and whether they belong to it. -/
structure RoundingInterval where
  low : Nat
  value : Nat
  high : Nat
  closed : Bool
  deriving DecidableEq, Repr

/-- The rounding interval of a positive finite value. It is narrower below a power of
two. -/
def roundingInterval (significand : Nat) (exponent : Int) : RoundingInterval :=
  let narrow := significand = 0x10000000000000 ∧ Binary64.leastExponent < exponent
  { low := 4 * significand - (if narrow then 1 else 2), value := 4 * significand,
    high := 4 * significand + 2, closed := significand % 2 = 0 }

/-- Compares a quarter count at a binary exponent with a decimal number, both positive:
the cross products that put them on one scale. -/
def crossProducts (quarters : Nat) (exponent : Int) (digits : Nat) (scale : Int) : Nat × Nat :=
  let binary := exponent - 2
  (quarters * Nat.pow 2 binary.toNat * Nat.pow 10 (-scale).toNat,
    digits * Nat.pow 10 scale.toNat * Nat.pow 2 (-binary).toNat)

/-- Whether `digits * 10 ^ scale` lies in a rounding interval. -/
def RoundingInterval.holds (interval : RoundingInterval) (exponent : Int) (digits : Nat)
    (scale : Int) : Bool :=
  let (low, atLow) := crossProducts interval.low exponent digits scale
  let (high, atHigh) := crossProducts interval.high exponent digits scale
  if interval.closed then low ≤ atLow && atHigh ≤ high else low < atLow && atHigh < high

/-- The greatest whole number of steps `10 ^ scale` in a value. -/
def stepsBelow (interval : RoundingInterval) (exponent scale : Int) : Nat :=
  let (value, step) := crossProducts interval.value exponent 1 scale
  value / step

/-- Of two neighbouring step counts, the one nearer to the value; a tie goes to the even
one. -/
def nearerSteps (interval : RoundingInterval) (exponent scale : Int) (steps : Nat) : Nat :=
  let (value, middle) := crossProducts (2 * interval.value) exponent (2 * steps + 1) scale
  if value < middle then steps
  else if middle < value then steps + 1
  else if steps % 2 = 0 then steps
  else steps + 1

/-- The step count on a grid that reads back as the value, if the grid has one. -/
def stepsOnGrid? (interval : RoundingInterval) (exponent scale : Int) : Option Nat :=
  let below := stepsBelow interval exponent scale
  let lower := below != 0 && interval.holds exponent below scale
  let upper := interval.holds exponent (below + 1) scale
  if lower && upper then some (nearerSteps interval exponent scale below)
  else if lower then some below
  else if upper then some (below + 1)
  else none

/-- The power of ten of a value's first digit. -/
def leadingPower (interval : RoundingInterval) (exponent : Int) : Int :=
  let (value, one) := crossProducts interval.value exponent 1 0
  if one ≤ value then ((decimal (value / one)).length : Int) - 1
  else -((decimal ((one - 1) / value)).length : Int)

/-- The first grid, from coarse to fine, that has a step count reading back. -/
def shortestSteps (interval : RoundingInterval) (exponent leading : Int) :
    Nat → Nat → Nat × Int
  | 0, places =>
      let scale := leading - places
      (stepsBelow interval exponent scale, scale)
  | more + 1, places =>
      let scale := leading - places
      match stepsOnGrid? interval exponent scale with
      | some steps => (steps, scale)
      | none => shortestSteps interval exponent leading more (places + 1)

/-- The shortest decimal form of a positive finite value. -/
def shortestForm (significand : Nat) (exponent : Int) : DecimalForm :=
  let interval := roundingInterval significand exponent
  let (steps, scale) :=
    shortestSteps interval exponent (leadingPower interval exponent) 17 0
  let digits := decimal steps
  { digits := (digits.reverse.dropWhile (· == 0x30)).reverse,
    leading := scale + (digits.length : Int) - 1 }

/-- An exponent with its sign and at least two digits. -/
def exponentText (exponent : Int) : Bytes :=
  (if exponent < 0 then [0x65, 0x2D] else [0x65, 0x2B]) ++ numeral 10 2 exponent.natAbs

/-- A decimal form as text. Leading powers from -4 to 5 are written positionally. -/
def DecimalForm.text (form : DecimalForm) : Bytes :=
  let count : Int := form.digits.length
  if form.leading < -4 || 6 ≤ form.leading then
    let fraction := form.digits.drop 1
    form.digits.take 1 ++ (if fraction.isEmpty then [] else 0x2E :: fraction) ++
      exponentText form.leading
  else if form.leading < 0 then
    [0x30, 0x2E] ++ List.replicate (-form.leading - 1).toNat 0x30 ++ form.digits
  else if count ≤ form.leading + 1 then
    form.digits ++ List.replicate (form.leading + 1 - count).toNat 0x30
  else
    form.digits.take (form.leading + 1).toNat ++ [0x2E] ++
      form.digits.drop (form.leading + 1).toNat

/-- A number as text. -/
def Binary64.text : Binary64 → Bytes
  | .nan => "NaN"
  | .infinite true => "-Inf"
  | .infinite false => "+Inf"
  | .finite negative significand exponent =>
      (if negative then [0x2D] else []) ++
        if significand = 0 then [0x30] else (shortestForm significand exponent).text

end ClassAudit
