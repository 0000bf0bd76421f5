import ClassAudit.Proofs.ArgumentLimitProperties
import ClassAudit.Rule.Selection
import Mathlib.Data.List.Basic

/-!
# Selected rules

A configuration selects the catalog rules that it activates, in the order of the catalog. An
integer of a plain type counts by the number it denotes, whatever its width and sign: neither
widening nor the cut to a byte wraps around. The cut is not seen by methods, which have at most
255 parameters. Integers of other types do not count.
-/

set_option autoImplicit false

namespace ClassAudit

/-! ## Integers of every width -/

/-- The types whose integers can activate a rule. -/
def plainTypes : List IntegerType :=
  [.int, .int8, .int16, .int32, .int64, .uint, .uint8, .uint16, .uint32, .uint64]

/-- The values that activate a rule, each with the parameter it gives. -/
inductive SettingValue.Activates : SettingValue → UInt8 → Prop
  | switchedOn : Activates (.bool true) 0
  | threshold {number : MachineInteger} {param : UInt8} (plain : number.type ∈ plainTypes)
      (positive : 0 < number.value) (capped : (param.toNat : Int) = min number.value 255) :
      Activates (.int number) param

/-- A rule of the catalog whose key is mapped to a value that activates it. -/
def Settings.Activates (settings : Settings) (rule : Rule) : Prop :=
  rule.kind ∈ RuleKind.catalog ∧
    ∃ value, settings.lookup rule.kind.key = some value ∧ value.Activates rule.param

theorem selectRules_eq_ok_iff {settings : Settings} {rules : List Rule} :
    selectRules settings = .ok rules ↔
      rules = RuleKind.catalog.filterMap (activeRule? settings) ∧ rules ≠ [] := by
  unfold selectRules
  cases RuleKind.catalog.filterMap (activeRule? settings) with
  | nil => simp
  | cons rule others => grind

end ClassAudit
