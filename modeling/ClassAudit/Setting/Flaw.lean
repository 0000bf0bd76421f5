import ClassAudit.Bytes

/-!
# Flaws of a configuration text

The reasons for which a configuration text has no value.
-/

set_option autoImplicit false

namespace ClassAudit

/-- Why a configuration text cannot be read. -/
inductive SettingFlaw where
  | badCharacter
  | unterminated
  | expected (what : String)
  | badEscape
  | badNumber
  | badDate
  | redefined (key : Bytes)
  | nestedTooDeeply
  | indentation
  | unknownAnchor (name : Bytes)
  | recursiveAnchor (name : Bytes)
  | excessiveAliases
  | unknownTag
  | tagMismatch
  | badKey
  | notATable
  deriving DecidableEq, Repr

/-- The wording of a flaw. -/
def SettingFlaw.text : SettingFlaw → Bytes
  | .badCharacter => "invalid character"
  | .unterminated => "unterminated string"
  | .expected what => Bytes.ofString "expected " ++ Bytes.ofString what
  | .badEscape => "invalid escape sequence"
  | .badNumber => "invalid number"
  | .badDate => "invalid date or time"
  | .redefined key => Bytes.ofString "key " ++ key ++ Bytes.ofString " is already defined"
  | .nestedTooDeeply => "values nest too deeply"
  | .indentation => "invalid indentation"
  | .unknownAnchor name => Bytes.ofString "unknown anchor " ++ name
  | .recursiveAnchor name =>
      Bytes.ofString "anchor " ++ name ++ Bytes.ofString " contains itself"
  | .excessiveAliases => "too many aliases"
  | .unknownTag => "unknown tag handle"
  | .tagMismatch => "value does not fit its tag"
  | .badKey => "invalid table key"
  | .notATable => "the document is not a table"

end ClassAudit
