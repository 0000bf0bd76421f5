import ClassAudit.Setting.Flaw
import ClassAudit.Text.Rune

/-!
# YAML characters

A YAML text is UTF-8, or UTF-16 after a byte order mark, and holds no control characters
but tabs and line breaks.
-/

set_option autoImplicit false

namespace ClassAudit.Yaml

/-- Whether a character may stand in a text. -/
def isAllowed (char : Char) : Bool :=
  let code := char.toNat
  code == 0x09 || code == 0x0A || code == 0x0D || (0x20 ≤ code && code ≤ 0x7E) ||
    code == 0x85 || (0xA0 ≤ code && code ≤ 0xD7FF) || (0xE000 ≤ code && code ≤ 0xFFFD) ||
    0x10000 ≤ code

/-- Whether a character is a blank within a line. -/
def isBlank (char : Char) : Bool := char == ' ' || char == '\t'

/-- Whether a character breaks a line. -/
def isBreak (char : Char) : Bool :=
  char == '\n' || char == '\r' || char == '\x85' || char == '\u2028' || char == '\u2029'

/-- Whether a line ends before what follows. -/
def endsLine (next : Option Char) : Bool := next.all isBreak

/-- Whether a word ends before what follows. -/
def endsWord (next : Option Char) : Bool := next.all fun char => isBlank char || isBreak char

/-- Whether a character can stand in a name. -/
def isNameChar (char : Char) : Bool := char.isAlphanum || char == '-' || char == '_'

/-- The characters of a UTF-8 text. -/
def utf8Chars? (text : Bytes) : Option (List Char) :=
  (runes text).mapM fun
    | .char value => some value
    | .stray _ => none

/-- The characters of 16-bit units; `high` is a surrogate that waits for its partner. -/
def unitChars? : Option Nat → List Nat → Option (List Char)
  | none, [] => some []
  | some _, [] => none
  | none, unit :: rest =>
      if 0xD800 ≤ unit && unit < 0xDC00 then unitChars? (some unit) rest
      else if unit.isValidChar then (Char.ofNat unit :: ·) <$> unitChars? none rest
      else none
  | some high, unit :: rest =>
      if 0xDC00 ≤ unit && unit < 0xE000 then
        let code := 0x10000 + (high - 0xD800) * 1024 + (unit - 0xDC00)
        (Char.ofNat code :: ·) <$> unitChars? none rest
      else none

/-- The 16-bit units of a byte string. -/
def units? (littleEndian : Bool) : Bytes → Option (List Nat)
  | [] => some []
  | [_] => none
  | first :: second :: rest =>
      let unit := if littleEndian then second.toNat * 256 + first.toNat
        else first.toNat * 256 + second.toNat
      (unit :: ·) <$> units? littleEndian rest

/-- The characters of a text, by its byte order mark. -/
def decodedChars? : Bytes → Option (List Char)
  | 0xFF :: 0xFE :: rest => do unitChars? none (← units? true rest)
  | 0xFE :: 0xFF :: rest => do unitChars? none (← units? false rest)
  | 0xEF :: 0xBB :: 0xBF :: rest => utf8Chars? rest
  | text => utf8Chars? text

/-- The characters of a text, if all of them are allowed. -/
def readChars (text : Bytes) : Except SettingFlaw (List Char) :=
  match decodedChars? text with
  | some chars => if chars.all isAllowed then .ok chars else .error .badCharacter
  | none => .error .badCharacter

end ClassAudit.Yaml
