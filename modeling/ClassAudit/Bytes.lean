/-!
# Byte strings

Names, messages, paths and file contents are sequences of bytes that need not be
valid UTF-8. This module fixes their type, the spelling of numbers in messages, and
the big-endian form of fixed-width words.
-/

set_option autoImplicit false

namespace ClassAudit

/-- A byte string. Nothing is assumed about its encoding. -/
abbrev Bytes := List UInt8

namespace Bytes

/-- The UTF-8 bytes of a text constant. -/
def ofString (text : String) : Bytes := text.toUTF8.data.toList

instance : Coe String Bytes := ⟨ofString⟩

/-- The byte of an ASCII character. Characters above U+00FF keep only their low byte. -/
def ofChar (char : Char) : UInt8 := char.toNat.toUInt8

/-- Splits off exactly `count` leading bytes, or nothing when fewer are left. -/
def split? (count : Nat) (bytes : Bytes) : Option (Bytes × Bytes) :=
  let (taken, rest) := bytes.splitAt count
  if taken.length = count then some (taken, rest) else none

/-- The bytes with every occurrence of `old` replaced by `new`. -/
def replaceByte (bytes : Bytes) (old : UInt8) (new : Bytes) : Bytes :=
  bytes.flatMap fun byte => if byte = old then new else [byte]

/-- Joins byte strings with a separator between neighbours. -/
def joinWith (separator : Bytes) : List Bytes → Bytes
  | [] => []
  | first :: others => first ++ others.flatMap (separator ++ ·)

/-- Splits at every occurrence of a separator byte. The result is never empty. -/
def splitOn (separator : UInt8) (bytes : Bytes) : List Bytes :=
  let (current, done) := bytes.foldr
    (fun byte (current, done) =>
      if byte = separator then ([], current :: done) else (byte :: current, done))
    (([] : Bytes), ([] : List Bytes))
  current :: done

/-- Whether `ending` is a suffix of the bytes. -/
def endsWith (bytes ending : Bytes) : Bool := ending.isSuffixOf bytes

/-- Bytewise lexicographic order, a proper prefix first. -/
def le : Bytes → Bytes → Bool
  | [], _ => true
  | _ :: _, [] => false
  | left :: lefts, right :: rights =>
      if left < right then true else if right < left then false else le lefts rights

/-- Removes the leading and trailing bytes that satisfy a test. -/
def trim (test : UInt8 → Bool) (bytes : Bytes) : Bytes :=
  ((bytes.dropWhile test).reverse.dropWhile test).reverse

/-- ASCII letters in lower case; every other byte as it is. -/
def toLower (bytes : Bytes) : Bytes :=
  bytes.map fun byte => if 0x41 ≤ byte && byte ≤ 0x5A then byte + 0x20 else byte

end Bytes

/-! ## Numerals -/

/-- Digits of `value` in `base`, most significant first, with at least `width` of them. -/
def numeral (base width value : Nat) : Bytes :=
  let digits := (Nat.toDigits base value).map Bytes.ofChar
  List.replicate (width - digits.length) 0x30 ++ digits

/-- A natural number in decimal. -/
def decimal (value : Nat) : Bytes := numeral 10 1 value

/-- An integer in decimal, with a minus sign when negative. -/
def signedDecimal (value : Int) : Bytes :=
  if value < 0 then 0x2D :: decimal value.natAbs else decimal value.natAbs

/-- A natural number in lower-case hexadecimal, padded with zeros to `width`. -/
def hexPadded (width value : Nat) : Bytes := numeral 16 width value

/-- Two lower-case hexadecimal digits per byte. -/
def hexOfBytes (bytes : Bytes) : Bytes :=
  bytes.flatMap fun byte => hexPadded 2 byte.toNat

/-- The least natural number that is no signed 64-bit integer. -/
abbrev int64Limit : Nat := 0x8000000000000000

/-- The least natural number that is no unsigned 64-bit integer. -/
abbrev uint64Limit : Nat := 0x10000000000000000

/-! ## Big-endian words -/

/-- The number a byte string denotes, most significant byte first. -/
def bigEndian (bytes : Bytes) : Nat :=
  bytes.foldl (fun value byte => value * 256 + byte.toNat) 0

/-- A 16-bit word as two bytes. -/
def bytesOfU2 (word : UInt16) : Bytes :=
  [(word.toNat / 256).toUInt8, word.toNat.toUInt8]

/-- A 32-bit word as four bytes. -/
def bytesOfU4 (word : UInt32) : Bytes :=
  [(word.toNat / 0x1000000).toUInt8, (word.toNat / 0x10000).toUInt8,
    (word.toNat / 256).toUInt8, word.toNat.toUInt8]

/-- A 64-bit word as eight bytes. -/
def bytesOfU8 (word : UInt64) : Bytes :=
  bytesOfU4 (word.toNat / 0x100000000).toUInt32 ++ bytesOfU4 word.toNat.toUInt32

end ClassAudit
