import ClassAudit.ClassFile.Decode
import ClassAudit.Rule.BinaryName
import ClassAudit.Rule.Catalog

/-!
# Rule evaluation

A rule gives at most one violation per method, in method-table order. A method whose
name or descriptor does not resolve violates every rule that needs it, with the kind of
the lookup's own fault.
-/

set_option autoImplicit false

namespace ClassAudit

/-- One violation of a rule by a method. -/
structure Violation where
  method : Bytes
  message : Bytes
  kind : FaultKind
  deriving DecidableEq, Repr

/-- The outcome of one rule on one file. -/
structure RuleResult where
  file : Bytes
  rule : Rule
  violations : List Violation
  deriving DecidableEq, Repr

/-- A result passes when it has no violation. -/
def RuleResult.passed (result : RuleResult) : Bool := result.violations.isEmpty

/-- A lookup failure as a violation. -/
def MethodError.toViolation (error : MethodError) : Violation :=
  ⟨error.method, error.toFault.summary, error.toFault.kind⟩

/-- The violation of a method whose name joins two actions. -/
def binaryNameViolation? (file : ClassFile) (method : Method) : Option Violation :=
  match file.methodName method with
  | .error error => some error.toViolation
  | .ok name =>
      if isBinaryName name then
        some ⟨name, "method name " ++ quoted name ++ " contains a binary operator", .ruleCheck⟩
      else none

/-- The violation of a method with more than `limit` parameters. -/
def argumentViolation? (limit : UInt8) (file : ClassFile) (method : Method) :
    Option Violation :=
  match file.resolveMethod method with
  | .error error => some error.toViolation
  | .ok (name, descriptor) =>
      match paramCount descriptor with
      | .error error => some ⟨name, error.toFault.message, .invalidDescriptor⟩
      | .ok count =>
          if limit.toNat < count then
            some ⟨name, "method takes " ++ decimal count ++ " parameters, maximum is " ++
              decimal limit.toNat, .ruleCheck⟩
          else none

/-- Methods that may return void: constructors, static initializers and main. -/
def mayReturnVoid (name : Bytes) : Bool :=
  name == "<init>" || name == "<clinit>" || name == "main"

/-- The violation of a method that returns void. -/
def voidViolation? (file : ClassFile) (method : Method) : Option Violation :=
  match file.methodName method with
  | .error error => some error.toViolation
  | .ok name =>
      if mayReturnVoid name then none
      else
        match file.pool.utf8 method.descriptor with
        | .error reason => some (MethodError.mk name reason).toViolation
        | .ok descriptor =>
            if returnsVoid descriptor then
              some ⟨name, "method " ++ name ++ descriptor ++ " returns void", .ruleCheck⟩
            else none

/-- The violations of a rule in a class. A rule outside the catalog is itself one. -/
def Rule.violations (rule : Rule) (file : ClassFile) : List Violation :=
  match rule.kind with
  | .noBinaryInNames => file.methods.filterMap (binaryNameViolation? file)
  | .tooManyArguments => file.methods.filterMap (argumentViolation? rule.param file)
  | .checkNoVoid => file.methods.filterMap (voidViolation? file)
  | .unknown number =>
      [⟨noMethodName, "no evaluator for rule " ++ (RuleKind.unknown number).key, .other⟩]

/-- Evaluates a rule on a class under a file name. -/
def evaluate (name : Bytes) (file : ClassFile) (rule : Rule) : RuleResult :=
  ⟨name, rule, rule.violations file⟩

end ClassAudit
