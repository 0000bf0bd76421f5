import ClassAudit.Text.Rune

/-!
# JSON text

Values with ordered fields and their written form: two spaces per level, one item per
line, and markup characters escaped so that the text can stand inside a page.
-/

set_option autoImplicit false

namespace ClassAudit

/-- A JSON value. Fields keep their order. -/
inductive Json where
  | null
  | bool (value : Bool)
  | number (value : Int)
  | string (text : Bytes)
  | array (items : List Json)
  | object (fields : List (Bytes × Json))
  deriving Repr

namespace Json

/-- A field under a constant name. -/
def field (name : String) (value : Json) : Bytes × Json := (name, value)

/-- A field that is left out unless a condition holds. -/
def fieldWhen (present : Bool) (name : String) (value : Json) : List (Bytes × Json) :=
  if present then [field name value] else []

/-- A character inside a JSON string. -/
def escapedChar (char : Char) : Bytes :=
  let code := char.toNat
  match code with
  | 0x22 => "\\\""
  | 0x5C => "\\\\"
  | 0x08 => "\\b"
  | 0x0C => "\\f"
  | 0x0A => "\\n"
  | 0x0D => "\\r"
  | 0x09 => "\\t"
  | _ =>
      if code < 0x20 || char == '<' || char == '>' || char == '&' ||
          code == 0x2028 || code == 0x2029 then
        "\\u" ++ hexPadded 4 code
      else String.utf8EncodeChar char

/-- A rune inside a JSON string. A stray byte is written as U+FFFD. -/
def escapedRune : Rune → Bytes
  | .char value => escapedChar value
  | .stray _ => "\\ufffd"

/-- A byte string as a JSON string. -/
def quote (text : Bytes) : Bytes := [0x22] ++ (runes text).flatMap escapedRune ++ [0x22]

/-- A line break and the indentation of a level. -/
def newline (level : Nat) : Bytes := 0x0A :: List.replicate (2 * level) 0x20

mutual

/-- The written form of a value whose own line is at a level. -/
def render (level : Nat) : Json → Bytes
  | .null => "null"
  | .bool true => "true"
  | .bool false => "false"
  | .number value => signedDecimal value
  | .string text => quote text
  | .array [] => "[]"
  | .array (item :: items) =>
      [0x5B] ++ newline (level + 1) ++ render (level + 1) item ++ renderItems level items ++
        newline level ++ [0x5D]
  | .object [] => [0x7B, 0x7D]
  | .object (first :: others) =>
      [0x7B] ++ newline (level + 1) ++ renderField (level + 1) first ++
        renderFields level others ++ newline level ++ [0x7D]

/-- Further items of an array at a level. -/
def renderItems (level : Nat) : List Json → Bytes
  | [] => []
  | item :: items =>
      [0x2C] ++ newline (level + 1) ++ render (level + 1) item ++ renderItems level items

/-- A field of an object whose line is at a level. -/
def renderField (level : Nat) : Bytes × Json → Bytes
  | (name, value) => quote name ++ ": " ++ render level value

/-- Further fields of an object at a level. -/
def renderFields (level : Nat) : List (Bytes × Json) → Bytes
  | [] => []
  | first :: others =>
      [0x2C] ++ newline (level + 1) ++ renderField (level + 1) first ++
        renderFields level others

end

/-- A value as a document: its written form and a line break. -/
def document (value : Json) : Bytes := value.render 0 ++ [0x0A]

end Json

end ClassAudit
