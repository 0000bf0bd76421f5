import ClassAudit.Decimal.Binary64

/-!
# Setting values

A configuration file gives a table of named values, nested to any depth.
-/

set_option autoImplicit false

namespace ClassAudit

/-- The types that a whole number can have: plain ones, of a fixed width or of the width of a
word, that of addresses, and those that a program defines on top of another. -/
inductive IntegerType where
  | int
  | int8
  | int16
  | int32
  | int64
  | uint
  | uint8
  | uint16
  | uint32
  | uint64
  | address
  | defined (name : Bytes) (underlying : IntegerType)
  deriving DecidableEq, Repr

namespace IntegerType

/-- The number of bits of a type. A word has 64. -/
def size : IntegerType → Nat
  | .int8 | .uint8 => 8
  | .int16 | .uint16 => 16
  | .int32 | .uint32 => 32
  | .int | .int64 | .uint | .uint64 | .address => 64
  | .defined _ underlying => underlying.size

/-- Whether the numbers of a type have a sign. -/
def isSigned : IntegerType → Bool
  | .int | .int8 | .int16 | .int32 | .int64 => true
  | .uint | .uint8 | .uint16 | .uint32 | .uint64 | .address => false
  | .defined _ underlying => underlying.isSigned

end IntegerType

/-- A whole number as a machine holds it, with its type. -/
structure MachineInteger where
  type : IntegerType
  bits : BitVec type.size
  deriving DecidableEq, Repr

namespace MachineInteger

/-- The number that is meant: in two's complement where its type has a sign. -/
def value (number : MachineInteger) : Int :=
  if number.type.isSigned then number.bits.toInt else number.bits.toNat

/-- A number in a type, cut to its width. -/
def of (type : IntegerType) (number : Int) : MachineInteger := ⟨type, BitVec.ofInt _ number⟩

/-- A number of at most 64 bits: with a sign where it is below the limit of signed ones, else
without. -/
def ofInt (number : Int) : MachineInteger :=
  if number < int64Limit then of .int number else of .uint64 number

end MachineInteger

/-- A value in a configuration. Dates and times are not looked into. -/
inductive SettingValue where
  | null
  | bool (value : Bool)
  | int (number : MachineInteger)
  | float (value : Binary64)
  | string (text : Bytes)
  | time
  | list (items : List SettingValue)
  | table (fields : List (Bytes × SettingValue))
  deriving Repr

/-- An integer of at most 64 bits. -/
def SettingValue.ofInt (number : Int) : SettingValue := .int (.ofInt number)

/-- A signed integer of 64 bits. -/
def SettingValue.ofInt64 (number : Int) : SettingValue := .int (.of .int64 number)

/-- The named values of a configuration. -/
abbrev Settings := List (Bytes × SettingValue)

end ClassAudit
