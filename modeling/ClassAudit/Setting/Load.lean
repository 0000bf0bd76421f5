import ClassAudit.FileTree.Basic
import ClassAudit.Rule.Selection
import ClassAudit.Setting.Format

/-!
# Loading a configuration

The configuration at a path is read, parsed in the format of its path, and gives the
active rules.
-/

set_option autoImplicit false

namespace ClassAudit

/-- Why a configuration gives no rules. -/
inductive LoadError where
  | unreadable (path : Bytes) (reason : Fault)
  | malformed (path : Bytes) (flaw : SettingFlaw)
  | unselected (reason : SelectionError)
  deriving DecidableEq, Repr

/-- The chain of a configuration without rules. -/
def LoadError.toFault : LoadError → Fault
  | .unreadable path reason =>
      .classifiedBy .invalidPath ("cannot read config " ++ path)
        (.joined (.cause .configUnreadable) reason)
  | .malformed path flaw => .classifiedBy .parse ("config " ++ path) flaw.toFault
  | .unselected reason => reason.toFault

namespace Disk

/-- The settings of the configuration at a path. -/
def loadSettings (disk : Disk) (path : Bytes) : Except LoadError Settings := do
  let text ← (disk.contents path).mapError (.unreadable path)
  ((SettingFormat.ofPath path).read text).mapError (.malformed path)

/-- The rules that the configuration at a path activates. -/
def loadRules (disk : Disk) (path : Bytes) : Except LoadError (List Rule) := do
  (selectRules (← disk.loadSettings path)).mapError .unselected

end Disk

end ClassAudit
