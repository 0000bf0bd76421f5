import ClassAudit.Bytes

/-!
# Faults

A fault is a chain of contexts around a cause. Its message is the whole chain, its kind
and its summary come from the first classified link, and its causes are the known
conditions anywhere in the chain.
-/

set_option autoImplicit false

namespace ClassAudit

/-- How a fault is grouped in reports. -/
inductive FaultKind where
  | other
  | parse
  | notFound
  | invalidFormat
  | invalidPath
  | invalidDescriptor
  | ruleCheck
  deriving DecidableEq, Repr

/-- The name of a kind in reports. -/
def FaultKind.name : FaultKind → Bytes
  | .parse => "Parser Error"
  | .notFound => "Not Found"
  | .invalidFormat => "Invalid Format"
  | .invalidPath => "Invalid Path"
  | .invalidDescriptor => "Invalid Descriptor Syntax"
  | .ruleCheck => "Rule Check Failed"
  | .other => "Other"

/-- Conditions that callers tell apart, wherever they stand in a chain. -/
inductive Cause where
  | streamEnd
  | streamOverrun
  | malformedHeader
  | unexpectedEnd
  | unknownTag
  | trailingData
  | indexNotFound
  | wrongConstant
  | notRegular
  | tooLarge
  | invalidSyntax
  | noRulesSelected
  | configUnreadable
  | configMalformed
  | noSuchFile
  | canceled
  deriving DecidableEq, Repr

/-- The text of a cause in a message. -/
def Cause.text : Cause → Bytes
  | .streamEnd => "stream: unexpected end of data"
  | .streamOverrun => "stream: length exceeds remaining data"
  | .malformedHeader => "classfile: malformed header"
  | .unexpectedEnd => "classfile: unexpected end of input"
  | .unknownTag => "classfile: unknown constant tag"
  | .trailingData => "classfile: trailing data after attributes"
  | .indexNotFound => "classfile: constant pool index out of range"
  | .wrongConstant => "classfile: wrong constant kind"
  | .notRegular => "classfile: not a regular file"
  | .tooLarge => "classfile: file exceeds size cap"
  | .invalidSyntax => "descriptor: invalid syntax"
  | .noRulesSelected => "rules: no rules selected"
  | .configUnreadable => "config: unreadable"
  | .configMalformed => "config: malformed"
  | .noSuchFile => "no such file or directory"
  | .canceled => "context canceled"

/-- Every cause, in the order in which reports list them. -/
def Cause.all : List Cause :=
  [.streamEnd, .streamOverrun, .malformedHeader, .unexpectedEnd, .unknownTag, .trailingData,
    .indexNotFound, .wrongConstant, .notRegular, .tooLarge, .invalidSyntax, .noRulesSelected,
    .configUnreadable, .configMalformed, .noSuchFile, .canceled]

/-- A chain of contexts. `detailed` and `joined` hold two chains, searched first to last. -/
inductive Fault where
  | plain (text : Bytes)
  | cause (known : Cause)
  | context (text : Bytes) (inner : Fault)
  | detailed (outer inner : Fault)
  | joined (first second : Fault)
  | inMethod (method : Bytes) (inner : Fault)
  | classified (kind : FaultKind) (message : Bytes)
  | classifiedBy (kind : FaultKind) (message : Bytes) (inner : Fault)
  deriving DecidableEq, Repr

namespace Fault

/-- The whole chain as text. A classified link without a message of its own shows its
inner chain, or its kind when there is none. -/
def message : Fault → Bytes
  | .plain text => text
  | .cause known => known.text
  | .context text inner => text ++ ": " ++ inner.message
  | .detailed outer inner => outer.message ++ ": " ++ inner.message
  | .joined first second => first.message ++ "\n" ++ second.message
  | .inMethod method inner => "method " ++ method ++ ": " ++ inner.message
  | .classified kind message => if message = [] then kind.name else message
  | .classifiedBy _ message inner =>
      if message = [] then inner.message else message ++ ": " ++ inner.message

/-- Kind and message of the first classified link. -/
def classification? : Fault → Option (FaultKind × Bytes)
  | .plain _ => none
  | .cause _ => none
  | .context _ inner => inner.classification?
  | .detailed outer inner => outer.classification? <|> inner.classification?
  | .joined first second => first.classification? <|> second.classification?
  | .inMethod _ inner => inner.classification?
  | .classified kind message => some (kind, message)
  | .classifiedBy kind message _ => some (kind, message)

/-- The kind of the first classified link; an unclassified chain is of kind `other`. -/
def kind (fault : Fault) : FaultKind :=
  match fault.classification? with
  | some (kind, _) => kind
  | none => .other

/-- The message of the first classified link, or the whole chain when that link has no
message or does not exist. -/
def summary (fault : Fault) : Bytes :=
  match fault.classification? with
  | some (_, message) => if message = [] then fault.message else message
  | none => fault.message

/-- Whether a cause stands anywhere in the chain. -/
def has (sought : Cause) : Fault → Bool
  | .plain _ => false
  | .cause known => known == sought
  | .context _ inner => inner.has sought
  | .detailed outer inner => outer.has sought || inner.has sought
  | .joined first second => first.has sought || second.has sought
  | .inMethod _ inner => inner.has sought
  | .classified _ _ => false
  | .classifiedBy _ _ inner => inner.has sought

/-- The causes in the chain, in the order of `Cause.all`. -/
def causes (fault : Fault) : List Cause := Cause.all.filter fault.has

/-- The method that the outermost method link names. -/
def method? : Fault → Option Bytes
  | .plain _ => none
  | .cause _ => none
  | .context _ inner => inner.method?
  | .detailed outer inner => outer.method? <|> inner.method?
  | .joined first second => first.method? <|> second.method?
  | .inMethod method _ => some method
  | .classified _ _ => none
  | .classifiedBy _ _ inner => inner.method?

end Fault

end ClassAudit
