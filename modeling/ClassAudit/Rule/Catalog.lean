import ClassAudit.Bytes

/-!
# Rule catalog

The closed list of rules with their configuration keys and display texts. Reports are
made in catalog order.
-/

set_option autoImplicit false

namespace ClassAudit

/-- A rule of the catalog, or a number that names none. -/
inductive RuleKind where
  | noBinaryInNames
  | tooManyArguments
  | checkNoVoid
  | unknown (number : Int)
  deriving DecidableEq, Repr

namespace RuleKind

/-- The rules in catalog order. -/
def catalog : List RuleKind := [.noBinaryInNames, .tooManyArguments, .checkNoVoid]

/-- The rule with a catalog number, counted from 0. -/
def ofNumber : Int → RuleKind
  | 0 => .noBinaryInNames
  | 1 => .tooManyArguments
  | 2 => .checkNoVoid
  | number => .unknown number

/-- The catalog number of a rule. -/
def number : RuleKind → Int
  | .noBinaryInNames => 0
  | .tooManyArguments => 1
  | .checkNoVoid => 2
  | .unknown number => number

/-- The configuration key of a rule. -/
def key : RuleKind → Bytes
  | .noBinaryInNames => "no_binary_in_names"
  | .tooManyArguments => "too_many_arguments"
  | .checkNoVoid => "check_no_void"
  | .unknown number => "rule_" ++ signedDecimal number

/-- The display name of a rule. -/
def name : RuleKind → Bytes
  | .noBinaryInNames => "No Binary Operator In Method Names"
  | .tooManyArguments => "Too Many Arguments"
  | .checkNoVoid => "No Void Method Allowed"
  | .unknown number => "Unknown Rule(" ++ signedDecimal number ++ ")"

/-- A one-line explanation of a rule. -/
def description : RuleKind → Bytes
  | .noBinaryInNames =>
      "Method names must not join two actions with and/or (readAndWrite, is_or_has)."
  | .tooManyArguments =>
      "Methods must not declare more parameters than the configured maximum."
  | .checkNoVoid =>
      "Methods other than constructors, static initializers and main must return a value."
  | .unknown _ => []

/-- Whether a rule can be evaluated. -/
def hasEvaluator : RuleKind → Bool
  | .unknown _ => false
  | _ => true

/-- The catalog rule with a configuration key. -/
def ofKey? (key : Bytes) : Option RuleKind := catalog.find? fun kind => kind.key == key

end RuleKind

/-- An active rule. The parameter is the greatest parameter count for
`tooManyArguments`; the other rules ignore it. -/
structure Rule where
  kind : RuleKind
  param : UInt8
  deriving DecidableEq, Repr

/-- The key and parameter of a rule. -/
def Rule.text (rule : Rule) : Bytes := rule.kind.key ++ "=" ++ decimal rule.param.toNat

end ClassAudit
