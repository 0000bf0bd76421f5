import ClassAudit.Text.Rune

/-!
# Class-file text

Text constants of a class file hold UTF-16 code units in a three-form encoding: NUL is
written in two bytes, and a supplementary character as its two surrogates, three bytes
each. Reading gives ordinary UTF-8. A body that is no such encoding is kept as it is.
-/

set_option autoImplicit false

namespace ClassAudit

/-- Whether a code unit is the first half of a surrogate pair. -/
def isHighSurrogate (unit : UInt16) : Bool := 0xD800 ≤ unit && unit ≤ 0xDBFF

/-- Whether a code unit is the second half of a surrogate pair. -/
def isLowSurrogate (unit : UInt16) : Bool := 0xDC00 ≤ unit && unit ≤ 0xDFFF

/-! ## Code units and characters -/

/-- The supplementary character that a surrogate pair denotes. -/
def pairChar (high low : UInt16) : Char :=
  Char.ofNat (0x10000 + (high.toNat - 0xD800) * 1024 + (low.toNat - 0xDC00))

/-- The character of a code unit that stands alone. A lone surrogate is U+FFFD. -/
def loneChar (unit : UInt16) : Char :=
  if isHighSurrogate unit || isLowSurrogate unit then Char.ofNat 0xFFFD
  else Char.ofNat unit.toNat

/-- The characters of a sequence of code units. A high surrogate pairs only with a low
surrogate directly after it. -/
def charsOfUnits : List UInt16 → List Char
  | [] => []
  | [unit] => [loneChar unit]
  | unit :: next :: rest =>
      if isHighSurrogate unit && isLowSurrogate next then
        pairChar unit next :: charsOfUnits rest
      else loneChar unit :: charsOfUnits (next :: rest)

/-! ## Encoding of code units -/

/-- One code unit in one, two or three bytes. Zero takes two. -/
def encodeUnit (unit : UInt16) : Bytes :=
  let code := unit.toNat
  if 1 ≤ code && code ≤ 0x7F then [code.toUInt8]
  else if code ≤ 0x7FF then [(0xC0 + code / 64).toUInt8, (0x80 + code % 64).toUInt8]
  else [(0xE0 + code / 4096).toUInt8, (0x80 + code / 64 % 64).toUInt8,
    (0x80 + code % 64).toUInt8]

/-- A sequence of code units as the body of a text constant. -/
def encodeUnits (units : List UInt16) : Bytes := units.flatMap encodeUnit

/-- The code unit that starts with `first`, and how many of the following bytes it
takes. Overlong forms are read like any other. -/
def leadingUnit? (first : UInt8) (following : Bytes) : Option (UInt16 × Nat) :=
  let payload (byte : UInt8) : Nat := (byte &&& 0x3F).toNat
  if first < 0x80 then some (first.toUInt16, 0)
  else if first &&& 0xE0 == 0xC0 then
    match following with
    | second :: _ =>
        if isContinuation second then
          some (((first &&& 0x1F).toNat * 64 + payload second).toUInt16, 1)
        else none
    | _ => none
  else if first &&& 0xF0 == 0xE0 then
    match following with
    | second :: third :: _ =>
        if isContinuation second && isContinuation third then
          some (((first &&& 0x0F).toNat * 4096 + payload second * 64 +
            payload third).toUInt16, 2)
        else none
    | _ => none
  else none

/-- The code units of a body after skipping `skipped` bytes that the unit before them
has taken. -/
def unitsAfter? : Nat → Bytes → Option (List UInt16)
  | _, [] => some []
  | skipped + 1, _ :: rest => unitsAfter? skipped rest
  | 0, first :: rest =>
      match leadingUnit? first rest with
      | none => none
      | some (unit, taken) =>
          match unitsAfter? taken rest with
          | none => none
          | some units => some (unit :: units)

/-- The code units of a body, or nothing when some byte fits no form. -/
def units? (body : Bytes) : Option (List UInt16) := unitsAfter? 0 body

/-- The text of a constant's body. ASCII is taken as it stands, and so is a body
without a reading. -/
def decodeText (body : Bytes) : Bytes :=
  if body.all (· < 0x80) then body
  else
    match units? body with
    | none => body
    | some units =>
        let text := encodeChars (charsOfUnits units)
        if isUtf8 text then text else body

end ClassAudit
