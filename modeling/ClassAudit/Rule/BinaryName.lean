import ClassAudit.Text.Rune

/-!
# Names that join two actions

A name joins two actions when it holds `and` or `or` as a word of its own: at the start
or after an underscore, or in camel case after a lower-case letter. Names are read as
characters; a stray byte counts as U+FFFD.
-/

set_option autoImplicit false

namespace ClassAudit

/-- The character of a rune, with U+FFFD for a stray byte. -/
def Rune.toChar : Rune → Char
  | .char value => value
  | .stray _ => Char.ofNat 0xFFFD

/-- The text after a joining word, for each of the four words it may start with. -/
def afterJoiningWord? : List Char → Option (List Char)
  | 'a' :: 'n' :: 'd' :: rest => some rest
  | 'o' :: 'r' :: rest => some rest
  | 'A' :: 'N' :: 'D' :: rest => some rest
  | 'O' :: 'R' :: rest => some rest
  | _ => none

/-- Whether a text starts with a joining word, an upper-case letter or underscore, and
one more character of the same line. -/
def startsWithJoin (text : List Char) : Bool :=
  match afterJoiningWord? text with
  | some (mark :: next :: _) => (mark.isUpper || mark == '_') && next != '\n'
  | _ => false

/-- Whether a joined word starts at a boundary on the first line: where the text begins,
if `boundary` says so, or after an underscore. -/
def hasWordJoin (boundary : Bool) : List Char → Bool
  | [] => false
  | char :: rest =>
      (boundary && startsWithJoin (char :: rest)) ||
        (char != '\n' && hasWordJoin (char == '_') rest)

/-- Whether a text starts with a lower-case letter, `And` or `Or`, and an upper-case
letter. -/
def startsWithCamelJoin : List Char → Bool
  | first :: 'A' :: 'n' :: 'd' :: last :: _ => first.isLower && last.isUpper
  | first :: 'O' :: 'r' :: last :: _ => first.isLower && last.isUpper
  | _ => false

/-- Whether a camel-case join stands anywhere in a text. -/
def hasCamelJoin : List Char → Bool
  | [] => false
  | char :: rest => startsWithCamelJoin (char :: rest) || hasCamelJoin rest

/-- Whether a method name joins two actions. -/
def isBinaryName (name : Bytes) : Bool :=
  let chars := (runes name).map Rune.toChar
  hasWordJoin true chars || hasCamelJoin chars

end ClassAudit
