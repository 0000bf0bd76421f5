import ClassAudit.Text.Printable
import ClassAudit.Text.Rune

/-!
# Quoted text

A quoted text is delimited, shows printable characters as themselves and writes
everything else as an escape, so that a message stays on one line and every byte of
the text can be told from its quoted form.
-/

set_option autoImplicit false

namespace ClassAudit

/-- The letter of a short escape for a control character, if it has one. -/
def shortEscape? (code : Nat) : Option Char :=
  match code with
  | 0x07 => some 'a'
  | 0x08 => some 'b'
  | 0x0C => some 'f'
  | 0x0A => some 'n'
  | 0x0D => some 'r'
  | 0x09 => some 't'
  | 0x0B => some 'v'
  | _ => none

/-- A character inside a text delimited by `delimiter`. -/
def quotedChar (delimiter char : Char) : Bytes :=
  let code := char.toNat
  if char = delimiter || char = '\\' then 0x5C :: String.utf8EncodeChar char
  else if isPrintable code then String.utf8EncodeChar char
  else
    match shortEscape? code with
    | some letter => [0x5C, Bytes.ofChar letter]
    | none =>
        if code < 0x20 || code = 0x7F then Bytes.ofString "\\x" ++ hexPadded 2 code
        else if code < 0x10000 then Bytes.ofString "\\u" ++ hexPadded 4 code
        else Bytes.ofString "\\U" ++ hexPadded 8 code

/-- A rune inside a text delimited by `delimiter`. A stray byte is always escaped. -/
def quotedRune (delimiter : Char) : Rune → Bytes
  | .char char => quotedChar delimiter char
  | .stray byte => Bytes.ofString "\\x" ++ hexPadded 2 byte.toNat

/-- A byte string between double quotes. -/
def quoted (text : Bytes) : Bytes :=
  [0x22] ++ (runes text).flatMap (quotedRune '"') ++ [0x22]

/-- The character whose code point is the byte's number, between single quotes. -/
def quotedByte (byte : UInt8) : Bytes :=
  [0x27] ++ quotedChar '\'' (Char.ofNat byte.toNat) ++ [0x27]

end ClassAudit
