import ClassAudit.Bytes
import ClassAudit.Text.Rune

/-!
# Environment variables

Named values that a command line starts from, and the text format of files that add to
them. A statement of such a file is `name = value` or `name: value`, perhaps after
`export`; a value may be quoted and may refer to earlier names of the file.
-/

set_option autoImplicit false

namespace ClassAudit

/-- Variables and their values. Of several with one name the first counts. -/
abbrev Environment := List (Bytes × Bytes)

namespace Environment

/-- The value of a variable; one that is not set is empty. -/
def value (environment : Environment) (name : Bytes) : Bytes := (environment.lookup name).getD []

/-- The variables with others added that are not set yet. -/
def withDefaults (environment defaults : Environment) : Environment := environment ++ defaults

/-! ## Characters -/

/-- Code points of blanks within a line. -/
def isBlank (code : Nat) : Bool :=
  code == 0x20 || code == 0x09 || code == 0x0B || code == 0x0C || code == 0x0D ||
    code == 0x85 || code == 0xA0

/-- Code points of all white space, line breaks included. -/
def isSpace (code : Nat) : Bool :=
  isBlank code || code == 0x0A || code == 0x1680 || (0x2000 ≤ code && code ≤ 0x200A) ||
    code == 0x2028 || code == 0x2029 || code == 0x202F || code == 0x205F || code == 0x3000

/-- The text without the leading characters whose code points satisfy a test. -/
def dropStart (test : Nat → Bool) (text : Bytes) : Bytes :=
  ((runes text).dropWhile fun rune => test rune.code).flatMap Rune.bytes

/-- The text without the trailing characters whose code points satisfy a test. -/
def dropEnd (test : Nat → Bool) (text : Bytes) : Bytes :=
  ((runes text).reverse.dropWhile fun rune => test rune.code).reverse.flatMap Rune.bytes

/-- Ends of a line. -/
def endsLine (byte : UInt8) : Bool := byte == 0x0A || byte == 0x0D

/-- Upper-case letters, digits and the underscore, which make up a reference. -/
def isReferenceByte (byte : UInt8) : Bool :=
  (0x41 ≤ byte && byte ≤ 0x5A) || (0x30 ≤ byte && byte ≤ 0x39) || byte == 0x5F

/-- Bytes of a variable's name: ASCII letters and digits, the underscore and the point, and
the bytes whose number is the code point of a letter or a number. -/
def isNameByte (byte : UInt8) : Bool :=
  isReferenceByte byte || (0x61 ≤ byte && byte ≤ 0x7A) || byte == 0x2E ||
    byte == 0xAA || byte == 0xB2 || byte == 0xB3 || byte == 0xB5 || byte == 0xB9 ||
    byte == 0xBA || (0xBC ≤ byte && byte ≤ 0xBE) ||
    (0xC0 ≤ byte && byte != 0xD7 && byte != 0xF7)

/-- Bytes that may stand before the end of a name: its own, and those whose number is the
code point of a blank. -/
def mayPrecedeValue (byte : UInt8) : Bool := isNameByte byte || isBlank byte.toNat

/-! ## Values -/

/-- The text with each line break of two bytes turned into one. -/
def singleBreaks : Bytes → Bytes
  | 0x0D :: 0x0A :: rest => 0x0A :: singleBreaks rest
  | byte :: rest => byte :: singleBreaks rest
  | [] => []

/-- The bytes after an optional one. -/
def dropByte (byte : UInt8) : Bytes → Bytes
  | first :: rest => if first = byte then rest else first :: rest
  | [] => []

/-- What follows a dollar sign, as the name referred to and the rest. Brackets may go
around the name. -/
def splitReference (text : Bytes) : Bytes × Bytes :=
  let text := dropByte 0x7B (dropByte 0x28 text)
  (text.takeWhile isReferenceByte, dropByte 0x7D (text.dropWhile isReferenceByte))

/-- The text with its references replaced, for `fuel` bytes at most. A reference to no name
stays as it is, and a backslash before a dollar sign keeps the reference from being
replaced. -/
def expandWithin (environment : Environment) : Nat → Bytes → Bytes
  | 0, _ => []
  | _, [] => []
  | fuel + 1, 0x5C :: 0x24 :: rest =>
      let (_, after) := splitReference rest
      (0x24 :: rest.take (rest.length - after.length)) ++ expandWithin environment fuel after
  | fuel + 1, 0x24 :: rest =>
      let (name, after) := splitReference rest
      (if name.isEmpty then 0x24 :: rest.take (rest.length - after.length)
        else environment.value name) ++
        expandWithin environment fuel after
  | fuel + 1, byte :: rest => byte :: expandWithin environment fuel rest

/-- The text with its references replaced. -/
def expand (environment : Environment) (text : Bytes) : Bytes :=
  expandWithin environment text.length text

/-- The text with escaped line breaks made real. Other escapes stay. -/
def readBreaks : Bytes → Bytes
  | 0x5C :: letter :: rest =>
      if letter = 0x0A then 0x5C :: readBreaks (letter :: rest)
      else if letter = 0x6E then 0x0A :: readBreaks rest
      else if letter = 0x72 then 0x0D :: readBreaks rest
      else 0x5C :: letter :: readBreaks rest
  | byte :: rest => byte :: readBreaks rest
  | [] => []

/-- The text without the backslashes in front of anything but a dollar sign. -/
def dropEscapes : Bytes → Bytes
  | 0x5C :: letter :: rest =>
      if letter = 0x24 then 0x5C :: dropEscapes (letter :: rest)
      else letter :: dropEscapes rest
  | byte :: rest => byte :: dropEscapes rest
  | [] => []

/-- A line up to a number sign that follows a blank. -/
def beforeComment (afterBlank : Bool) : List Rune → List Rune
  | [] => []
  | rune :: rest =>
      if rune.code = 0x23 && afterBlank then []
      else rune :: beforeComment (isBlank rune.code) rest

/-- The value on an unquoted line. Stray bytes are replaced. -/
def lineValue (environment : Environment) (line : Bytes) : Bytes :=
  let shown := (beforeComment false (runes line)).flatMap Rune.replacedBytes
  environment.expand (dropEnd isBlank (dropStart isBlank shown))

/-- What stands before the next quote that no backslash precedes, and what follows it. -/
def splitQuoted (quote previous : UInt8) : Bytes → Option (Bytes × Bytes)
  | [] => none
  | byte :: rest =>
      if byte = quote && previous != 0x5C then some ([], rest)
      else (splitQuoted quote byte rest).map fun (inner, after) => (byte :: inner, after)

/-- The value of a quoted text. Double quotes allow escapes and references. -/
def quotedValue (environment : Environment) (quote : UInt8) (inner : Bytes) : Bytes :=
  let content := Bytes.trim (· == quote) inner
  if quote = 0x22 then environment.expand (dropEscapes (readBreaks content)) else content

/-- The value at the start of a text, and what follows it. There is none where a quote is
not closed. -/
def readValue? (environment : Environment) : Bytes → Option (Bytes × Bytes)
  | [] => some ([], [])
  | first :: rest =>
      if first = 0x22 || first = 0x27 then
        (splitQuoted first first rest).map fun (inner, after) =>
          (quotedValue environment first inner, after)
      else
        some (environment.lineValue ((first :: rest).takeWhile (!endsLine ·)),
          (first :: rest).dropWhile (!endsLine ·))

/-! ## Statements -/

/-- The text from the next statement on: spaces and comment lines are passed over, for
`fuel` of them at most. -/
def nextStatement : Nat → Bytes → Bytes
  | 0, _ => []
  | fuel + 1, text =>
      match dropStart isSpace text with
      | 0x23 :: rest => nextStatement fuel (rest.dropWhile (· != 0x0A))
      | statement => statement

/-- The text after the word `export`, if a blank follows the word. -/
def dropExport (text : Bytes) : Bytes :=
  let word := Bytes.ofString "export"
  let after := text.drop word.length
  if word.isPrefixOf text && dropStart isBlank after != after then dropStart isBlank after
  else text

/-- The name of a statement, and what follows its equals sign or colon. A text that ends
before either is all value, of a variable without a name. -/
def readName? (statement : Bytes) : Option (Bytes × Bytes) :=
  let text := dropExport statement
  match text.dropWhile mayPrecedeValue with
  | [] => if text.isEmpty then none else some ([], dropStart isBlank text)
  | mark :: rest =>
      if mark = 0x3D || mark = 0x3A then
        some (dropEnd isSpace (text.takeWhile mayPrecedeValue), dropStart isBlank rest)
      else none

/-- Reads statements on top of earlier ones, `fuel` of them at most. The latest comes
first. -/
def readStatements : Nat → Environment → Bytes → Option Environment
  | 0, environment, _ => some environment
  | fuel + 1, environment, text =>
      match nextStatement (text.length + 1) text with
      | [] => some environment
      | statement => do
          let (name, rest) ← readName? statement
          let (value, rest) ← environment.readValue? rest
          readStatements fuel ((name, value) :: environment) rest

/-- The variables of a file's text. One bad statement spoils the whole file. -/
def ofText? (text : Bytes) : Option Environment :=
  let text := singleBreaks text
  readStatements (text.length + 1) [] text

end Environment

end ClassAudit
