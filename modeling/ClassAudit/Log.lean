import ClassAudit.Text.Quoted

/-!
# Log lines

A log entry has a level, a message and named values. As text it is one line of
`name=value` pairs; a value is quoted when it could be misread.
-/

set_option autoImplicit false

namespace ClassAudit

/-- How important a log entry is. -/
inductive LogLevel where
  | debug
  | info
  | warn
  deriving DecidableEq, Repr

/-- The name of a level. -/
def LogLevel.name : LogLevel → Bytes
  | .debug => "DEBUG"
  | .info => "INFO"
  | .warn => "WARN"

/-- A log entry. -/
structure LogEntry where
  level : LogLevel
  message : Bytes
  values : List (Bytes × Bytes)
  deriving DecidableEq, Repr

/-- Whether a rune in a value asks for quotes: a control character, a space, an equals
sign, a double quote, and beyond ASCII all that is not printable or is U+FFFD. -/
def Rune.asksForQuotes (rune : Rune) : Bool :=
  let code := rune.code
  if code < 0x80 then code ≤ 0x20 || code == 0x22 || code == 0x3D
  else code == 0xFFFD || !isPrintable code

/-- A value as it stands in a log line. -/
def logValue (value : Bytes) : Bytes :=
  if value.isEmpty || (runes value).any Rune.asksForQuotes then quoted value else value

/-- A named value in a log line. -/
def logPair (pair : Bytes × Bytes) : Bytes := logValue pair.1 ++ "=" ++ logValue pair.2

/-- The line of a log entry. -/
def LogEntry.line (entry : LogEntry) : Bytes :=
  let heading : List (Bytes × Bytes) := [("level", entry.level.name), ("msg", entry.message)]
  Bytes.joinWith " " ((heading ++ entry.values).map logPair) ++ "\n"

/-- The lines of the entries that are shown: debug entries only where `verbose` holds. -/
def logText (verbose : Bool) (entries : List LogEntry) : Bytes :=
  (entries.filter fun entry => verbose || entry.level != .debug).flatMap LogEntry.line

end ClassAudit
