import ClassAudit.Setting.Calendar
import ClassAudit.Setting.Value
import ClassAudit.Setting.Yaml.Node

/-!
# Values of YAML scalars

A scalar without a tag is a word of a fixed list, a date, a number or else a string. A
tag asks for a type, and the text has to fit it.
-/

set_option autoImplicit false

namespace ClassAudit.Yaml

/-! ## Dates -/

/-- A field of one or two digits, and the bytes after it. -/
def shortField? : Bytes → Option (Nat × Bytes)
  | first :: second :: rest =>
      if !isDigit first then none
      else if isDigit second then some (digitsValue [first, second], rest)
      else some (digitsValue [first], second :: rest)
  | [first] => if isDigit first then some (digitsValue [first], []) else none
  | [] => none

/-- A field of one or two digits below a limit, and the bytes after it. -/
def boundedField? (limit : Nat) (text : Bytes) : Option Bytes := do
  let (value, rest) ← shortField? text
  if value < limit then some rest else none

/-- The bytes after one given byte. -/
def afterByte? (byte : UInt8) : Bytes → Option Bytes
  | first :: rest => if first = byte then some rest else none
  | [] => none

/-- The bytes after a date: a year of four digits, a month and a day. -/
def afterDate? (text : Bytes) : Option Bytes := do
  let year := text.takeWhile isDigit
  guard (year.length = 4)
  let rest ← afterByte? 0x2D (text.drop 4)
  let (month, rest) ← shortField? rest
  let rest ← afterByte? 0x2D rest
  let (day, rest) ← shortField? rest
  if isDate (digitsValue year) month day then some rest else none

/-- The bytes after a time of day with an optional fraction of a second. -/
def afterTime? (text : Bytes) : Option Bytes := do
  let rest ← boundedField? 24 text
  let rest ← afterByte? 0x3A rest
  let rest ← boundedField? 60 rest
  let rest ← afterByte? 0x3A rest
  let rest ← boundedField? 60 rest
  match rest with
  | mark :: digit :: more =>
      if (mark = 0x2E || mark = 0x2C) && isDigit digit then some (more.dropWhile isDigit)
      else some rest
  | _ => some rest

/-- Whether a text is a zone: `Z`, or a signed offset of hours and minutes. -/
def isZone : Bytes → Bool
  | [0x5A] => true
  | [sign, hourTens, hourOnes, colon, minuteTens, minuteOnes] =>
      (sign == 0x2B || sign == 0x2D) && colon == 0x3A &&
        [hourTens, hourOnes, minuteTens, minuteOnes].all isDigit &&
        digitsValue [hourTens, hourOnes] ≤ 24 && digitsValue [minuteTens, minuteOnes] ≤ 60
  | _ => false

/-- Whether a text is a date, or a date with a time: after a letter with a zone, after
spaces without. -/
def isMoment (text : Bytes) : Bool :=
  match afterDate? text with
  | none => false
  | some [] => true
  | some (mark :: rest) =>
      if mark = 0x54 || mark = 0x74 then (afterTime? rest).any isZone
      else mark = 0x20 && afterTime? (rest.dropWhile (· == 0x20)) == some []

/-! ## Numbers -/

/-- The value of a digit, of any letter case. -/
def digitValue? (byte : UInt8) : Option Nat :=
  if isDigit byte then some (byte.toNat - 0x30)
  else if 0x61 ≤ byte && byte ≤ 0x7A then some (byte.toNat - 0x57)
  else if 0x41 ≤ byte && byte ≤ 0x5A then some (byte.toNat - 0x37)
  else none

/-- The number that digits denote in a base. -/
def magnitude? (base : Nat) (digits : Bytes) : Option Nat := do
  let values ← digits.mapM digitValue?
  guard (values.all (· < base))
  return values.foldl (fun value digit => value * base + digit) 0

/-- The base that a letter after a leading zero stands for. -/
def letterBase? (letter : UInt8) : Option Nat :=
  match Char.ofNat letter.toNat with
  | 'b' | 'B' => some 2
  | 'o' | 'O' => some 8
  | 'x' | 'X' => some 16
  | _ => none

/-- The number of a numeral that shows its base: two, eight or sixteen by a letter, eight
by a leading zero, and otherwise ten. -/
def basedMagnitude? : Bytes → Option Nat
  | [] => none
  | 0x30 :: letter :: digit :: rest =>
      match letterBase? letter with
      | some base => magnitude? base (digit :: rest)
      | none => magnitude? 8 (letter :: digit :: rest)
  | 0x30 :: digits => magnitude? 8 digits
  | digits => magnitude? 10 digits

/-- A magnitude with a sign, within 64 bits: without a sign the upper half belongs to
it. -/
def signedInteger? (sign : Option UInt8) (magnitude : Nat) : Option Int :=
  match sign with
  | some 0x2D => if magnitude ≤ int64Limit then some (-(magnitude : Int)) else none
  | some _ => if magnitude < int64Limit then some magnitude else none
  | none => if magnitude < uint64Limit then some magnitude else none

/-- The sign of a numeral and what follows it. -/
def splitSign? : Bytes → Option UInt8 × Bytes
  | 0x2D :: rest => (some 0x2D, rest)
  | 0x2B :: rest => (some 0x2B, rest)
  | text => (none, text)

/-- An integer whose sign stands between the letter of its base and its digits. -/
def innerSigned? : Bytes → Option Int
  | 0x30 :: letter :: rest => do
      let base ← match letter with
        | 0x62 => some 2
        | 0x6F => some 8
        | _ => none
      let (sign, digits) := splitSign? rest
      guard (sign.isSome && !digits.isEmpty)
      signedInteger? sign (← magnitude? base digits)
  | _ => none

/-- An integer, or a fraction, or an integer with an inner sign. -/
def number? (text : Bytes) : Option SettingValue :=
  let plain := text.filter (· != 0x5F)
  let (sign, digits) := splitSign? plain
  let integer := do signedInteger? sign (← basedMagnitude? digits)
  let fraction := do
    let value ← readDecimal? plain
    if value.isInfinite then none else some value
  match integer, fraction, innerSigned? plain with
  | some value, _, _ => some (.ofInt value)
  | none, some value, _ => some (.float value)
  | none, none, some value => some (.ofInt value)
  | none, none, none => none

/-! ## Scalars -/

/-- The words that stand for a value of their own. -/
def words : List (String × SettingValue) :=
  [("", .null), ("~", .null), ("null", .null), ("Null", .null), ("NULL", .null),
    ("true", .bool true), ("True", .bool true), ("TRUE", .bool true),
    ("false", .bool false), ("False", .bool false), ("FALSE", .bool false),
    (".nan", .float .nan), (".NaN", .float .nan), (".NAN", .float .nan),
    (".inf", .float (.infinite false)), (".Inf", .float (.infinite false)),
    (".INF", .float (.infinite false)), ("+.inf", .float (.infinite false)),
    ("+.Inf", .float (.infinite false)), ("+.INF", .float (.infinite false)),
    ("-.inf", .float (.infinite true)), ("-.Inf", .float (.infinite true)),
    ("-.INF", .float (.infinite true))]

/-- The value of a text by its spelling. Dates count where `dates` holds. -/
def spelledValue (dates : Bool) (text : Bytes) : SettingValue :=
  match words.find? (fun word => Bytes.ofString word.1 == text) with
  | some (_, value) => value
  | none =>
      match text.head? with
      | none => .string text
      | some first =>
          if first = 0x2E then
            match readDecimal? text with
            | some value => if value.isInfinite then .string text else .float value
            | none => .string text
          else if isDigit first || first = 0x2B || first = 0x2D then
            if dates && isMoment text then .time else (number? text).getD (.string text)
          else .string text

/-- The value of a base-64 digit. -/
def base64Value? (byte : UInt8) : Option Nat :=
  if 0x41 ≤ byte && byte ≤ 0x5A then some (byte.toNat - 0x41)
  else if 0x61 ≤ byte && byte ≤ 0x7A then some (byte.toNat - 0x61 + 26)
  else if isDigit byte then some (byte.toNat - 0x30 + 52)
  else if byte = 0x2B then some 62
  else if byte = 0x2F then some 63
  else none

/-- The bytes of base-64 digits in groups of four. The last group may be padded. -/
def base64Bytes? : Bytes → Option Bytes
  | [] => some []
  | [a, b, 0x3D, 0x3D] => do
      let bits := (← base64Value? a) * 64 + (← base64Value? b)
      return [(bits / 16).toUInt8]
  | [a, b, c, 0x3D] => do
      let bits := ((← base64Value? a) * 64 + (← base64Value? b)) * 64 + (← base64Value? c)
      return [(bits / 1024).toUInt8, (bits / 4).toUInt8]
  | a :: b :: c :: d :: rest => do
      let bits := (((← base64Value? a) * 64 + (← base64Value? b)) * 64 + (← base64Value? c)) * 64 +
        (← base64Value? d)
      return [(bits / 65536).toUInt8, (bits / 256).toUInt8, bits.toUInt8] ++ (← base64Bytes? rest)
  | _ => none

/-- Accepts a value that fits its tag. -/
def fitting (fits : SettingValue → Bool) (value : SettingValue) : Except SettingFlaw SettingValue :=
  if fits value then .ok value else .error .tagMismatch

/-- The value of a text with a tag. Tags other than those of the scalar types leave the
text as it is. -/
def taggedValue (tag : Bytes) (text : Bytes) : Except SettingFlaw SettingValue :=
  if tag = Bytes.ofString "!!bool" then
    fitting (fun | .bool _ => true | _ => false) (spelledValue false text)
  else if tag = Bytes.ofString "!!int" then
    fitting (fun | .int _ => true | _ => false) (spelledValue false text)
  else if tag = Bytes.ofString "!!null" then
    fitting (fun | .null => true | _ => false) (spelledValue false text)
  else if tag = Bytes.ofString "!!timestamp" then
    fitting (fun | .time => true | _ => false) (spelledValue true text)
  else if tag = Bytes.ofString "!!float" then
    match spelledValue false text with
    | .float value => .ok (.float value)
    | .int number =>
        if number.value < int64Limit then .ok (.float (.ofInt number.value))
        else .error .tagMismatch
    | _ => .error .tagMismatch
  else if tag = Bytes.ofString "!!binary" then
    match base64Bytes? (text.filter (fun byte => byte != 0x0A && byte != 0x0D)) with
    | some bytes => .ok (.string bytes)
    | none => .error .badEscape
  else .ok (.string text)

/-- The value of a scalar. -/
def scalarValue (tag : Option Bytes) (text : Bytes) : Except SettingFlaw SettingValue :=
  match tag with
  | some tag => taggedValue tag text
  | none => .ok (spelledValue true text)

end ClassAudit.Yaml
