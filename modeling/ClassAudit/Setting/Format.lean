import ClassAudit.Fault
import ClassAudit.Path
import ClassAudit.Setting.Toml.Document
import ClassAudit.Setting.Yaml.Document

/-!
# Configuration formats

A configuration is written in TOML or in YAML. The ending of its path decides which.
-/

set_option autoImplicit false

namespace ClassAudit

/-- The notation of a configuration. -/
inductive SettingFormat where
  | toml
  | yaml
  deriving DecidableEq, Repr

namespace SettingFormat

/-- The name of a format. -/
def name : SettingFormat → Bytes
  | .toml => "toml"
  | .yaml => "yaml"

/-- The format of the configuration at a path. -/
def ofPath (path : Bytes) : SettingFormat :=
  let ending := Bytes.toLower (Path.ending path)
  if ending = Bytes.ofString ".yaml" || ending = Bytes.ofString ".yml" then .yaml else .toml

/-- The settings that a text gives in a format. -/
def read : SettingFormat → Bytes → Except SettingFlaw Settings
  | .toml, text => Toml.read text
  | .yaml, text => Yaml.read text

end SettingFormat

/-- The chain of a malformed configuration. -/
def SettingFlaw.toFault (flaw : SettingFlaw) : Fault :=
  .joined (.cause .configMalformed) (.plain flaw.text)

end ClassAudit
