import ClassAudit.Bytes

/-!
# Runes of a byte string

A byte string is read as UTF-8 from left to right. Where no well-formed sequence
starts, one byte is taken on its own. Overlong forms, surrogates and codes above
U+10FFFF are not well formed, so each of their bytes stands alone.
-/

set_option autoImplicit false

namespace ClassAudit

/-- One step of reading: a character, or a byte that starts no character. -/
inductive Rune where
  | char (value : Char)
  | stray (byte : UInt8)
  deriving DecidableEq, Repr

namespace Rune

/-- The code point a rune stands for. A stray byte counts as U+FFFD. -/
def code : Rune → Nat
  | .char value => value.toNat
  | .stray _ => 0xFFFD

/-- The bytes a rune was read from. -/
def bytes : Rune → Bytes
  | .char value => String.utf8EncodeChar value
  | .stray byte => [byte]

/-- The bytes a rune is written with when stray bytes are replaced by U+FFFD. -/
def replacedBytes : Rune → Bytes
  | .char value => String.utf8EncodeChar value
  | .stray _ => [0xEF, 0xBF, 0xBD]

end Rune

/-- Whether a byte can continue a multi-byte sequence. -/
def isContinuation (byte : UInt8) : Bool := byte &&& 0xC0 == 0x80

/-- The rune that starts with `first`, and how many of the following bytes it takes. -/
def leadingRune (first : UInt8) (following : Bytes) : Rune × Nat :=
  let lead := first.toNat
  let payload (byte : UInt8) : Nat := (byte &&& 0x3F).toNat
  if lead < 0x80 then (.char (Char.ofNat lead), 0)
  else if lead < 0xC0 then (.stray first, 0)
  else if lead < 0xE0 then
    match following with
    | second :: _ =>
        let code := (lead - 0xC0) * 64 + payload second
        if isContinuation second && 0x80 ≤ code then (.char (Char.ofNat code), 1)
        else (.stray first, 0)
    | _ => (.stray first, 0)
  else if lead < 0xF0 then
    match following with
    | second :: third :: _ =>
        let code := (lead - 0xE0) * 4096 + payload second * 64 + payload third
        if isContinuation second && isContinuation third && 0x800 ≤ code &&
            !(0xD800 ≤ code && code ≤ 0xDFFF) then (.char (Char.ofNat code), 2)
        else (.stray first, 0)
    | _ => (.stray first, 0)
  else if lead < 0xF8 then
    match following with
    | second :: third :: fourth :: _ =>
        let code := (lead - 0xF0) * 262144 + payload second * 4096 + payload third * 64 +
          payload fourth
        if isContinuation second && isContinuation third && isContinuation fourth &&
            0x10000 ≤ code && code ≤ 0x10FFFF then (.char (Char.ofNat code), 3)
        else (.stray first, 0)
    | _ => (.stray first, 0)
  else (.stray first, 0)

/-- The runes of a byte string after skipping `skipped` bytes that the rune before
them has taken. -/
def runesAfter : Nat → Bytes → List Rune
  | _, [] => []
  | skipped + 1, _ :: rest => runesAfter skipped rest
  | 0, first :: rest =>
      let (rune, taken) := leadingRune first rest
      rune :: runesAfter taken rest

/-- The runes of a byte string, in order. -/
def runes (text : Bytes) : List Rune := runesAfter 0 text

/-- Whether a byte string is well-formed UTF-8. -/
def isUtf8 (text : Bytes) : Bool :=
  (runes text).all fun
    | .char _ => true
    | .stray _ => false

/-- The UTF-8 form of a sequence of characters. -/
def encodeChars (chars : List Char) : Bytes := chars.flatMap String.utf8EncodeChar

end ClassAudit
