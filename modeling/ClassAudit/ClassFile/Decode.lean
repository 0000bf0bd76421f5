import ClassAudit.ClassFile.Basic
import ClassAudit.ClassFile.Reading

/-!
# Decoding class files

Decoding reads the layout and then judges what it read. A best-effort decode records
unknown versions, bytes after the attributes and broken method descriptors as
diagnostics; a strict decode refuses the last two, except for descriptors that do not
resolve at all.
-/

set_option autoImplicit false

namespace ClassAudit

/-- Whether questionable input is recorded or refused. -/
inductive DecodeMode where
  | bestEffort
  | strict
  deriving DecidableEq, Repr

/-- What is wrong with a method's descriptor. -/
inductive DescriptorFinding where
  | unresolved (reason : LookupError)
  | invalid (reason : DescriptorError)
  deriving DecidableEq, Repr

/-- Judges the descriptor of a method. -/
def descriptorFinding? (pool : Pool) (method : Method) : Option DescriptorFinding :=
  match pool.utf8 method.descriptor with
  | .error reason => some (.unresolved reason)
  | .ok text =>
      match MethodDescriptor.parse text with
      | .error reason => some (.invalid reason)
      | .ok _ => none

/-- A finding as a diagnostic of its method. -/
def DescriptorFinding.diagnostic (index : Nat) (method : Method) :
    DescriptorFinding → Diagnostic
  | .unresolved reason =>
      ⟨.unresolved, method.offset, some index, "descriptor: " ++ reason.toFault.summary⟩
  | .invalid reason => ⟨.descriptor, method.offset, some index, reason.toFault.message⟩

/-- The findings of a method table, with method indices counted from `index`. -/
def descriptorDiagnostics (pool : Pool) : Nat → List Method → List Diagnostic
  | _, [] => []
  | index, method :: methods =>
      let rest := descriptorDiagnostics pool (index + 1) methods
      match descriptorFinding? pool method with
      | some finding => finding.diagnostic index method :: rest
      | none => rest

/-- The first method whose descriptor resolves and is invalid, with indices counted
from `index`. -/
def firstInvalidDescriptor? (pool : Pool) :
    Nat → List Method → Option (Nat × Method × DescriptorError)
  | _, [] => none
  | index, method :: methods =>
      match descriptorFinding? pool method with
      | some (.invalid reason) => some (index, method, reason)
      | _ => firstInvalidDescriptor? pool (index + 1) methods

/-- The diagnostic of an unknown major version. -/
def versionDiagnostics (major : UInt16) : List Diagnostic :=
  match release? major with
  | some _ => []
  | none => [⟨.version, 6, none, "unknown major version " ++ decimal major.toNat⟩]

/-- The diagnostic of bytes left at a cursor. -/
def trailingDiagnostics (after : Cursor) : List Diagnostic :=
  if after.remaining = 0 then []
  else [⟨.trailing, after.position, none, decimal after.remaining ++ " trailing bytes ignored"⟩]

/-- The method table with file offsets. -/
def RawClass.methodTable (raw : RawClass) : List Method :=
  (raw.methods.zip raw.methodOffsets).map fun (member, offset) =>
    { offset, access := member.access, name := member.name, descriptor := member.descriptor,
      attributeCount := member.attributes.length }

/-- The model of a class that was read up to a cursor, with its diagnostics. -/
def RawClass.interpret (raw : RawClass) (after : Cursor) : ClassFile :=
  let pool := Pool.ofConstants raw.poolCount raw.constants
  let methods := raw.methodTable
  { minor := raw.minor, major := raw.major, pool, access := raw.access,
    thisClass := raw.thisClass, superClass := raw.superClass, interfaces := raw.interfaces,
    fieldCount := raw.fields.length, methods, attributeCount := raw.attributes.length,
    diagnostics := versionDiagnostics raw.major ++ trailingDiagnostics after ++
      descriptorDiagnostics pool 0 methods }

/-- What a strict decode refuses in a class that was read. Trailing bytes come before
any descriptor. -/
def strictRefusal? (file : ClassFile) (after : Cursor) : Option DecodeError :=
  if after.remaining ≠ 0 then some (.trailingData after.remaining after.position)
  else
    (firstInvalidDescriptor? file.pool 0 file.methods).map fun (index, method, reason) =>
      .invalidDescriptor index method.offset reason

/-- Decodes a class file. -/
def decode (mode : DecodeMode) (data : Bytes) : Except DecodeError ClassFile := do
  let (raw, after) ← readClass data
  let file := raw.interpret after
  match mode, strictRefusal? file after with
  | .strict, some refusal => throw refusal
  | _, _ => return file

end ClassAudit
