import ClassAudit.Setting.Calendar
import ClassAudit.Setting.Flaw
import ClassAudit.Setting.Value
import ClassAudit.Text.Rune

/-!
# TOML scalars

Strings in their four spellings, numbers, and dates. Each reader takes the bytes from
the first byte of the value on and returns the bytes after it.
-/

set_option autoImplicit false

namespace ClassAudit.Toml

open ClassAudit (Bytes)

/-- Whether a byte is a blank within a line. -/
def isBlank (byte : UInt8) : Bool := byte == 0x20 || byte == 0x09

/-- Whether a byte is a control character that no text may hold. Line breaks are left to
the place where they stand. -/
def isForbidden (byte : UInt8) : Bool :=
  (byte < 0x20 && byte != 0x09 && byte != 0x0A && byte != 0x0D) || byte == 0x7F

/-- Accepts a text that is UTF-8 without forbidden characters. -/
def checkedText (text : Bytes) : Except SettingFlaw Bytes :=
  if isUtf8 text && !text.any isForbidden then .ok text else .error .badCharacter

/-! ## Strings -/

/-- The body of a string on one line, up to its closing quote. A backslash protects the
byte after it where `escapes` says so. -/
def lineBody (quote : UInt8) (escapes : Bool) : Bytes → Except SettingFlaw (Bytes × Bytes)
  | [] => .error .unterminated
  | byte :: rest =>
      if byte = quote then .ok ([], rest)
      else if byte = 0x0A || byte = 0x0D then .error .unterminated
      else if escapes && byte = 0x5C then
        match rest with
        | [] => .error .unterminated
        | next :: after => do
            let (body, left) ← lineBody quote escapes after
            return (byte :: next :: body, left)
      else do
        let (body, left) ← lineBody quote escapes rest
        return (byte :: body, left)

/-- The end of a string over several lines, after three quotes: up to two more quotes
belong to the body. -/
def closingQuotes (quote : UInt8) : Bytes → Except SettingFlaw (Bytes × Bytes)
  | first :: second :: third :: rest =>
      if first = quote && second = quote && third = quote then .error (.expected "line end")
      else if first = quote && second = quote then .ok ([quote, quote], third :: rest)
      else if first = quote then .ok ([quote], second :: third :: rest)
      else .ok ([], first :: second :: third :: rest)
  | [first, second] =>
      if first = quote && second = quote then .ok ([quote, quote], [])
      else if first = quote then .ok ([quote], [second])
      else .ok ([], [first, second])
  | [first] => if first = quote then .ok ([quote], []) else .ok ([], [first])
  | [] => .ok ([], [])

/-- The body of a string over several lines, up to its three closing quotes. -/
def blockBody (quote : UInt8) (escapes : Bool) : Bytes → Except SettingFlaw (Bytes × Bytes)
  | [] => .error .unterminated
  | byte :: rest =>
      if byte = quote && [quote, quote].isPrefixOf rest then closingQuotes quote (rest.drop 2)
      else if escapes && byte = 0x5C then
        match rest with
        | [] => .error .unterminated
        | next :: after => do
            let (body, left) ← blockBody quote escapes after
            return (byte :: next :: body, left)
      else if byte = 0x0D && !([0x0A].isPrefixOf rest) then .error .badCharacter
      else do
        let (body, left) ← blockBody quote escapes rest
        return (byte :: body, left)

/-- The value of a hexadecimal digit. -/
def hexDigit? (byte : UInt8) : Option Nat :=
  if isDigit byte then some (byte.toNat - 0x30)
  else if 0x61 ≤ byte && byte ≤ 0x66 then some (byte.toNat - 0x57)
  else if 0x41 ≤ byte && byte ≤ 0x46 then some (byte.toNat - 0x37)
  else none

/-- The UTF-8 bytes of the character with the given hexadecimal code. -/
def escapedChar (digits : Bytes) : Except SettingFlaw Bytes :=
  match digits.mapM hexDigit? with
  | none => .error .badEscape
  | some values =>
      let code := values.foldl (fun value digit => value * 16 + digit) 0
      if code.isValidChar then .ok (String.utf8EncodeChar (Char.ofNat code))
      else .error .badEscape

/-- The byte that a one-letter escape stands for. -/
def escapedByte? (letter : UInt8) : Option UInt8 :=
  match Char.ofNat letter.toNat with
  | '"' => some 0x22
  | '\\' => some 0x5C
  | 'b' => some 0x08
  | 'e' => some 0x1B
  | 'f' => some 0x0C
  | 'n' => some 0x0A
  | 'r' => some 0x0D
  | 't' => some 0x09
  | _ => none

/-- Whether only blanks are left on the line. -/
def endsLine : Bytes → Bool
  | byte :: rest =>
      if isBlank byte then endsLine rest
      else if byte = 0x0D then [0x0A].isPrefixOf rest
      else byte = 0x0A
  | [] => false

/-- A string's body with its escapes replaced. In a string over several lines a
backslash at a line's end removes all blanks and line breaks after it; `joining` is set
while they are removed. -/
def unescape (block joining : Bool) : Bytes → Except SettingFlaw Bytes
  | [] => .ok []
  | 0x5C :: rest =>
      if block && endsLine rest then unescape block true rest
      else
        match rest with
        | 0x75 :: a :: b :: c :: d :: after => do
            let char ← escapedChar [a, b, c, d]
            return char ++ (← unescape block false after)
        | 0x55 :: a :: b :: c :: d :: e :: f :: g :: h :: after => do
            let char ← escapedChar [a, b, c, d, e, f, g, h]
            return char ++ (← unescape block false after)
        | letter :: after =>
            match escapedByte? letter with
            | some byte => do return byte :: (← unescape block false after)
            | none => .error .badEscape
        | [] => .error .badEscape
  | byte :: rest =>
      if joining && (isBlank byte || byte = 0x0A || byte = 0x0D) then unescape block true rest
      else do return byte :: (← unescape block false rest)

/-- A line break at the start of a string over several lines does not count. -/
def dropFirstBreak : Bytes → Bytes
  | 0x0A :: rest => rest
  | 0x0D :: 0x0A :: rest => rest
  | text => text

/-- A string on one line, after its opening quote. -/
def lineString (quote : UInt8) (text : Bytes) : Except SettingFlaw (Bytes × Bytes) := do
  let escapes := quote == 0x22
  let (body, rest) ← lineBody quote escapes text
  let body ← checkedText body
  return (← if escapes then unescape false false body else .ok body, rest)

/-- A string over several lines, after its three opening quotes. -/
def blockString (quote : UInt8) (text : Bytes) : Except SettingFlaw (Bytes × Bytes) := do
  let escapes := quote == 0x22
  let (body, rest) ← blockBody quote escapes text
  let body := dropFirstBreak (← checkedText body)
  return (← if escapes then unescape true false body else .ok body, rest)

/-! ## Numbers -/

/-- Removes the underscores of a numeral. Each must stand between two digits. -/
def withoutUnderscores? (isDigit : UInt8 → Bool) : Bool → Bytes → Option Bytes
  | _, [] => some []
  | afterDigit, byte :: rest =>
      if byte = 0x5F then
        if afterDigit && rest.head?.any isDigit then withoutUnderscores? isDigit false rest
        else none
      else (byte :: ·) <$> withoutUnderscores? isDigit (isDigit byte) rest

/-- The integers that a configuration can hold. -/
def int64? (value : Int) : Option Int :=
  if -(int64Limit : Int) ≤ value && value < (int64Limit : Int) then some value else none

/-- A numeral without a sign in a base other than ten. -/
def basedInteger? (base : Nat) (digits : Bytes) : Option Int := do
  guard (!digits.isEmpty)
  let plain ← withoutUnderscores? (fun byte => (hexDigit? byte).isSome) false digits
  let values ← plain.mapM hexDigit?
  int64? (values.foldl (fun value digit => value * base + digit) 0 : Nat)

/-- Whether a run of digits has a zero that stands before another digit. -/
def hasLeadingZero (digits : Bytes) : Bool := digits.head? == some 0x30 && digits.length != 1

/-- A decimal integer with an optional sign. -/
def decimalInteger? (text : Bytes) : Option Int := do
  let plain ← withoutUnderscores? isDigit false text
  let (negative, digits) := splitSign plain
  guard (!digits.isEmpty && digits.all isDigit && !hasLeadingZero digits)
  let magnitude : Int := digitsValue digits
  int64? (if negative then -magnitude else magnitude)

/-- A decimal fraction: digits stand on both sides of its point. -/
def fraction? (text : Bytes) : Option Binary64 := do
  let plain ← withoutUnderscores? isDigit false text
  let unsigned := (splitSign plain).2
  let whole := unsigned.takeWhile isDigit
  guard (!whole.isEmpty && !hasLeadingZero whole)
  match unsigned.dropWhile isDigit with
  | 0x2E :: after => guard (after.head?.any isDigit)
  | _ => pure ()
  let value ← readDecimal? plain
  if value.isInfinite then none else some value

/-- Infinity or not-a-number, with an optional sign. -/
def specialNumber? (text : Bytes) : Option Binary64 :=
  let (negative, unsigned) := splitSign text
  if unsigned = Bytes.ofString "inf" then some (.infinite negative)
  else if unsigned = Bytes.ofString "nan" then some .nan
  else none

/-- Whether a byte can stand in a decimal number. -/
def isNumberByte (byte : UInt8) : Bool :=
  isDigit byte || (Bytes.ofString "+-_.eE").contains byte

/-- The base of an integer by the letter after its leading zero, and its digits. -/
def numeralBase? (letter : UInt8) : Option (Nat × (UInt8 → Bool)) :=
  match Char.ofNat letter.toNat with
  | 'x' => some (16, fun byte => (hexDigit? byte).isSome || byte == 0x5F)
  | 'o' => some (8, fun byte => (0x30 ≤ byte && byte ≤ 0x37) || byte == 0x5F)
  | 'b' => some (2, fun byte => byte == 0x30 || byte == 0x31 || byte == 0x5F)
  | _ => none

/-- Turns a missing number into a flaw. -/
def numberOr (value : Option SettingValue) (rest : Bytes) :
    Except SettingFlaw (SettingValue × Bytes) :=
  match value with
  | some value => .ok (value, rest)
  | none => .error .badNumber

/-- A decimal number, infinity or not-a-number. -/
def decimalNumber (text : Bytes) : Except SettingFlaw (SettingValue × Bytes) :=
  let token := text.takeWhile isNumberByte
  let rest := text.dropWhile isNumberByte
  let word := rest.take 3
  if rest.head? == some 0x69 || rest.head? == some 0x6E then
    numberOr (.float <$> specialNumber? (token ++ word)) (rest.drop 3)
  else if token.any (fun byte => byte == 0x2E || byte == 0x65 || byte == 0x45) then
    numberOr (.float <$> fraction? token) rest
  else numberOr (.ofInt64 <$> decimalInteger? token) rest

/-- A number of any spelling. -/
def number (text : Bytes) : Except SettingFlaw (SettingValue × Bytes) :=
  match text with
  | 0x30 :: letter :: rest =>
      match numeralBase? letter with
      | some (base, isBaseDigit) =>
          numberOr (.ofInt64 <$> basedInteger? base (rest.takeWhile isBaseDigit))
            (rest.dropWhile isBaseDigit)
      | none =>
          if letter = 0x2E || letter = 0x65 || letter = 0x45 then decimalNumber text
          else .ok (.ofInt64 0, letter :: rest)
  | _ => decimalNumber text

/-! ## Dates and times -/

/-- A field of exactly two digits, at most `limit`, and the bytes after it. -/
def twoDigits? (limit : Nat) : Bytes → Option (Nat × Bytes)
  | tens :: ones :: rest =>
      let value := digitsValue [tens, ones]
      if isDigit tens && isDigit ones && value ≤ limit then some (value, rest) else none
  | _ => none

/-- The bytes after one given byte. -/
def after? (byte : UInt8) : Bytes → Option Bytes
  | first :: rest => if first = byte then some rest else none
  | [] => none

/-- A full date, and the bytes after it. -/
def afterDate? (text : Bytes) : Option Bytes := do
  let year := text.take 4
  guard (year.length = 4 && year.all isDigit)
  let rest ← after? 0x2D (text.drop 4)
  let (month, rest) ← twoDigits? 12 rest
  let rest ← after? 0x2D rest
  let (day, rest) ← twoDigits? 31 rest
  guard (isDate (digitsValue year) month day)
  return rest

/-- A time of day with an optional fraction, and the bytes after it. -/
def afterTime? (text : Bytes) : Option Bytes := do
  let (_, rest) ← twoDigits? 23 text
  let rest ← after? 0x3A rest
  let (_, rest) ← twoDigits? 59 rest
  let rest ← after? 0x3A rest
  let (_, rest) ← twoDigits? 60 rest
  match rest with
  | 0x2E :: digits =>
      guard (digits.head?.any isDigit)
      return digits.dropWhile isDigit
  | _ => return rest

/-- Whether a text is a zone: `Z`, or a signed offset of hours and minutes. -/
def isZone : Bytes → Bool
  | [letter] => letter == 0x5A || letter == 0x7A
  | sign :: rest =>
      (sign == 0x2B || sign == 0x2D) &&
        (do
          let (_, rest) ← twoDigits? 23 rest
          let rest ← after? 0x3A rest
          let (_, rest) ← twoDigits? 59 rest
          guard rest.isEmpty).isSome
  | [] => false

/-- Whether a text is a date, a time, or both with an optional zone. -/
def isMoment (text : Bytes) : Bool :=
  match afterDate? text with
  | some [] => true
  | some (separator :: time) =>
      (separator == 0x54 || separator == 0x74 || separator == 0x20) &&
        match afterTime? time with
        | some zone => zone.isEmpty || isZone zone
        | none => false
  | none => afterTime? text == some []

/-- Whether a byte can stand in a date or time. -/
def isMomentByte (byte : UInt8) : Bool :=
  isDigit byte || (Bytes.ofString "-TtZz:.+").contains byte

/-- The extent of a date or time. One space may stand before a digit. -/
def momentExtent (text : Bytes) : Bytes × Bytes :=
  let first := text.takeWhile isMomentByte
  match text.dropWhile isMomentByte with
  | 0x20 :: digit :: rest =>
      if isDigit digit then
        let more := digit :: rest
        (first ++ 0x20 :: more.takeWhile isMomentByte, more.dropWhile isMomentByte)
      else (first, 0x20 :: digit :: rest)
  | rest => (first, rest)

/-- Whether a number-like text starts a date or a time. -/
def startsMoment (text : Bytes) : Bool :=
  let digits := text.takeWhile isDigit
  let next := (text.dropWhile isDigit).head?
  (digits.length == 2 && next == some 0x3A) || (digits.length == 4 && next == some 0x2D)

/-- A number, a date or a time. -/
def numberOrMoment (text : Bytes) : Except SettingFlaw (SettingValue × Bytes) :=
  if startsMoment text then
    let (moment, rest) := momentExtent text
    if isMoment moment then .ok (.time, rest) else .error .badDate
  else number text

end ClassAudit.Toml
