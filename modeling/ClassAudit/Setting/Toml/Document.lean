import ClassAudit.Setting.Toml.KeyRegistry
import ClassAudit.Setting.Toml.Scalar

/-!
# TOML documents

A document is a sequence of lines, each a definition, a header or blank. The definitions
build one table.
-/

set_option autoImplicit false

namespace ClassAudit

/-! ## Placing values -/

/-- The fields inside a value and how to put changed fields back. Of a list of tables the
last one counts. -/
def SettingValue.openFields (value : Option SettingValue) : Settings × (Settings → SettingValue) :=
  match value with
  | some (.table fields) => (fields, .table)
  | some (.list items) =>
      match items.getLast? with
      | some (.table fields) => (fields, fun changed => .list (items.dropLast ++ [.table changed]))
      | _ => ([], fun changed => .list (items ++ [.table changed]))
  | _ => ([], .table)

/-- Fields with one of them set. A new field goes last. -/
def Settings.set (fields : Settings) (key : Bytes) (value : SettingValue) : Settings :=
  if fields.any (fun field => field.1 == key) then
    fields.map fun field => if field.1 == key then (key, value) else field
  else fields ++ [(key, value)]

/-- Fields with the value at a path changed. Missing tables are made on the way. -/
def Settings.change (fields : Settings) (change : Option SettingValue → SettingValue) :
    List Bytes → Settings
  | [] => fields
  | [key] => Settings.set fields key (change (fields.lookup key))
  | key :: rest =>
      let (inner, close) := SettingValue.openFields (fields.lookup key)
      Settings.set fields key (close (Settings.change inner change rest))

namespace Toml

/-! ## Keys -/

/-- Whether a byte can stand in a bare key. -/
def isBareKeyByte (byte : UInt8) : Bool :=
  isDigit byte || (0x41 ≤ byte && byte ≤ 0x5A) || (0x61 ≤ byte && byte ≤ 0x7A) ||
    byte == 0x2D || byte == 0x5F

/-- Drops the blanks at the start. -/
def skipBlanks (text : Bytes) : Bytes := text.dropWhile isBlank

/-- One part of a key, bare or quoted. -/
def keyPart (text : Bytes) : Except SettingFlaw (Bytes × Bytes) :=
  match text with
  | 0x22 :: rest => lineString 0x22 rest
  | 0x27 :: rest => lineString 0x27 rest
  | _ =>
      let bare := text.takeWhile isBareKeyByte
      if bare.isEmpty then .error (.expected "key") else .ok (bare, text.dropWhile isBareKeyByte)

/-- A dotted key and the blanks after it. The fuel bounds the number of parts. -/
def keyPath : Nat → Bytes → Except SettingFlaw (KeyPath × Bytes)
  | 0, _ => .error .nestedTooDeeply
  | fuel + 1, text => do
      let (part, rest) ← keyPart text
      match skipBlanks rest with
      | 0x2E :: after =>
          let (parts, left) ← keyPath fuel (skipBlanks after)
          return (part :: parts, left)
      | left => return ([part], left)

/-- A key before its equals sign, and the text of its value. -/
def keyBeforeValue (text : Bytes) : Except SettingFlaw (KeyPath × Bytes) := do
  let (path, rest) ← keyPath (text.length + 1) text
  match rest with
  | 0x3D :: after => return (path, skipBlanks after)
  | _ => throw (.expected "=")

/-! ## Values -/

/-- The text after a comment, from its line's end on. A carriage return may only stand
before a line feed. -/
def afterComment (text : Bytes) : Except SettingFlaw Bytes := do
  let isBreak := fun (byte : UInt8) => byte == 0x0A || byte == 0x0D
  let _ ← checkedText (text.takeWhile (fun byte => !isBreak byte))
  match text.dropWhile (fun byte => !isBreak byte) with
  | 0x0D :: rest => if [0x0A].isPrefixOf rest then return 0x0D :: rest else throw .badCharacter
  | rest => return rest

/-- The text after a line break. -/
def afterBreak? : Bytes → Option Bytes
  | 0x0A :: rest => some rest
  | 0x0D :: 0x0A :: rest => some rest
  | _ => none

/-- Skips blanks, comments and line breaks between the items of a list. -/
def skipLines : Nat → Bytes → Except SettingFlaw Bytes
  | 0, _ => .error .nestedTooDeeply
  | fuel + 1, text => do
      let rest ← match skipBlanks text with
        | 0x23 :: comment => afterComment comment
        | rest => pure rest
      match afterBreak? rest with
      | some after => skipLines fuel after
      | none => return rest

/-- The table of the fields of an inline table. -/
def inlineTable (fields : List (KeyPath × SettingValue)) : Except SettingFlaw SettingValue := do
  let (_, table) ← fields.foldlM
    (fun (registry, table) (path, value) => do
      let registry ← KeyRegistry.define registry path
      return (registry, Settings.change table (fun _ => value) path))
    (({} : KeyRegistry), ([] : Settings))
  return .table table

mutual

/-- A value. The fuel bounds the nesting. -/
def readValue : Nat → Bytes → Except SettingFlaw (SettingValue × Bytes)
  | 0, _ => .error .nestedTooDeeply
  | fuel + 1, text =>
      match text with
      | 0x22 :: 0x22 :: 0x22 :: rest => do
          let (value, left) ← blockString 0x22 rest
          return (.string value, left)
      | 0x22 :: rest => do
          let (value, left) ← lineString 0x22 rest
          return (.string value, left)
      | 0x27 :: 0x27 :: 0x27 :: rest => do
          let (value, left) ← blockString 0x27 rest
          return (.string value, left)
      | 0x27 :: rest => do
          let (value, left) ← lineString 0x27 rest
          return (.string value, left)
      | 0x5B :: rest => do
          let (items, left) ← readItems fuel true rest
          return (.list items, left)
      | 0x7B :: rest => do
          let (fields, left) ← readFields fuel true rest
          return (← inlineTable fields, left)
      | _ =>
          if (Bytes.ofString "true").isPrefixOf text then .ok (.bool true, text.drop 4)
          else if (Bytes.ofString "false").isPrefixOf text then .ok (.bool false, text.drop 5)
          else numberOrMoment text

/-- The items of a list, up to its closing bracket. A comma may follow the last one. -/
def readItems : Nat → Bool → Bytes → Except SettingFlaw (List SettingValue × Bytes)
  | 0, _, _ => .error .nestedTooDeeply
  | fuel + 1, first, text => do
      let rest ← skipLines (text.length + 1) text
      let item ← match rest with
        | 0x5D :: left => return ([], left)
        | 0x2C :: after =>
            if first then throw (.expected "value") else skipLines (after.length + 1) after
        | rest => if first then pure rest else throw (.expected ",")
      match item with
      | 0x5D :: left => return ([], left)
      | _ =>
          let (value, rest) ← readValue fuel item
          let (values, left) ← readItems fuel false rest
          return (value :: values, left)

/-- The fields of an inline table, up to its closing brace. -/
def readFields : Nat → Bool → Bytes → Except SettingFlaw (List (KeyPath × SettingValue) × Bytes)
  | 0, _, _ => .error .nestedTooDeeply
  | fuel + 1, first, text => do
      let field ← match skipBlanks text with
        | 0x7D :: left => return ([], left)
        | 0x2C :: after =>
            if first then throw (.expected "key") else pure (skipBlanks after)
        | rest => if first then pure rest else throw (.expected ",")
      let (path, rest) ← keyBeforeValue field
      let (value, rest) ← readValue fuel rest
      let (fields, left) ← readFields fuel false rest
      return ((path, value) :: fields, left)

end

/-! ## Lines -/

/-- What a line of a document says. -/
inductive Line where
  | blank
  | definition (path : KeyPath) (value : SettingValue)
  | table (path : KeyPath)
  | listItem (path : KeyPath)
  deriving Repr

/-- The text after a given closing text. -/
def afterClosing (closing : Bytes) (text : Bytes) : Except SettingFlaw Bytes :=
  if closing.isPrefixOf text then .ok (text.drop closing.length) else .error (.expected "]")

/-- What the line at the start of a text says, and the text after that. -/
def readLine (text : Bytes) : Except SettingFlaw (Line × Bytes) :=
  match skipBlanks text with
  | [] => .ok (.blank, [])
  | 0x23 :: comment => .ok (.blank, 0x23 :: comment)
  | 0x0A :: rest => .ok (.blank, 0x0A :: rest)
  | 0x0D :: rest => .ok (.blank, 0x0D :: rest)
  | 0x5B :: 0x5B :: rest => do
      let (path, left) ← keyPath (rest.length + 1) (skipBlanks rest)
      return (.listItem path, ← afterClosing [0x5D, 0x5D] left)
  | 0x5B :: rest => do
      let (path, left) ← keyPath (rest.length + 1) (skipBlanks rest)
      return (.table path, ← afterClosing [0x5D] left)
  | rest => do
      let (path, left) ← keyBeforeValue rest
      let (value, left) ← readValue (2 * left.length + 2) left
      return (.definition path value, left)

/-- The lines of a document. The fuel bounds their number. -/
def readLines : Nat → Bytes → Except SettingFlaw (List Line)
  | 0, _ => .error .nestedTooDeeply
  | fuel + 1, text => do
      let (line, rest) ← readLine text
      let rest ← match skipBlanks rest with
        | 0x23 :: comment => afterComment comment
        | rest => pure rest
      match rest with
      | [] => return [line]
      | rest =>
          match afterBreak? rest with
          | some after => return line :: (← readLines fuel after)
          | none => throw (.expected "line end")

/-- A document under construction. -/
structure Draft where
  registry : KeyRegistry := {}
  table : Settings := []
  deriving Repr

/-- A draft after one more line. -/
def Draft.add (draft : Draft) : Line → Except SettingFlaw Draft
  | .blank => .ok draft
  | .definition path value => do
      let registry ← draft.registry.define path
      return ⟨registry, Settings.change draft.table (fun _ => value)
        (draft.registry.current ++ path)⟩
  | .table path => do
      let registry ← draft.registry.openTable path
      let opened := fun (known : Option SettingValue) => known.getD (.table [])
      return ⟨registry, Settings.change draft.table opened path⟩
  | .listItem path => do
      let registry ← draft.registry.openListItem path
      let extended := fun (known : Option SettingValue) =>
        match known with
        | some (.list items) => .list (items ++ [.table []])
        | _ => .list [.table []]
      return ⟨registry, Settings.change draft.table extended path⟩

/-- The table that a document defines. -/
def read (text : Bytes) : Except SettingFlaw Settings := do
  let lines ← readLines (text.length + 1) text
  return (← lines.foldlM Draft.add {}).table

end Toml

end ClassAudit
