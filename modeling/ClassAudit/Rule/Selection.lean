import ClassAudit.Fault
import ClassAudit.Rule.Catalog
import ClassAudit.Setting.Value

/-!
# Rule selection

A configuration activates the catalog rules whose key it maps to true or to a positive
integer of a plain type. Keys outside the catalog do not matter.
-/

set_option autoImplicit false

namespace ClassAudit

/-- The parameter that a count stands for. Zero stands for none, and counts above 255 for
255. -/
def paramOfCount? (count : UInt64) : Option UInt8 :=
  if count = 0 then none else if 255 < count then some 255 else some count.toUInt8

/-- The parameter that a number stands for: only positive ones are counts. -/
def paramOfNumber? (number : Int64) : Option UInt8 :=
  if number ≤ 0 then none else paramOfCount? number.toUInt64

/-- The parameter that an integer stands for. One of a plain type is widened to 64 bits first;
one of any other type stands for none. -/
def MachineInteger.param? (number : MachineInteger) : Option UInt8 :=
  match number.type with
  | .int | .int8 | .int16 | .int32 | .int64 =>
      paramOfNumber? (.ofBitVec (number.bits.signExtend 64))
  | .uint | .uint8 | .uint16 | .uint32 | .uint64 =>
      paramOfCount? (.ofBitVec (number.bits.setWidth 64))
  | .address | .defined _ _ => none

/-- The parameter that a value activates a rule with, if it does. -/
def SettingValue.activation? : SettingValue → Option UInt8
  | .bool true => some 0
  | .int number => number.param?
  | _ => none

/-- A configuration that activates no rule. -/
inductive SelectionError where
  | noRulesSelected
  deriving DecidableEq, Repr

/-- The chain of a failed selection. -/
def SelectionError.toFault : SelectionError → Fault
  | .noRulesSelected => .cause .noRulesSelected

/-- The rule of a catalog kind that a configuration activates. -/
def activeRule? (settings : Settings) (kind : RuleKind) : Option Rule := do
  let value ← settings.lookup kind.key
  let param ← value.activation?
  return ⟨kind, param⟩

/-- The active rules of a configuration, in catalog order. -/
def selectRules (settings : Settings) : Except SelectionError (List Rule) :=
  match RuleKind.catalog.filterMap (activeRule? settings) with
  | [] => .error .noRulesSelected
  | rules => .ok rules

end ClassAudit
