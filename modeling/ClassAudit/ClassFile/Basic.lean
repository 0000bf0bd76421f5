import ClassAudit.ClassFile.Pool
import ClassAudit.Diagnostic

/-!
# Class files

The read-only model of a decoded class file: versions, pool, flags, names and the
method table.
-/

set_option autoImplicit false

namespace ClassAudit

/-- An entry of the method table, with its file offset. -/
structure Method where
  offset : Nat
  access : UInt16
  name : PoolIndex
  descriptor : PoolIndex
  attributeCount : Nat
  deriving DecidableEq, Repr

/-- A decoded class file with the findings of its decode. -/
structure ClassFile where
  minor : UInt16
  major : UInt16
  pool : Pool
  access : UInt16
  thisClass : PoolIndex
  superClass : PoolIndex
  interfaces : List PoolIndex
  fieldCount : Nat
  methods : List Method
  attributeCount : Nat
  diagnostics : List Diagnostic
  deriving DecidableEq, Repr

/-- Whether every bit of a flag is set on a method. -/
def Method.is (method : Method) (flag : UInt16) : Bool := method.access &&& flag == flag

/-! ## Versions -/

/-- The Java release that introduced a major version, if it is known. -/
def release? (major : UInt16) : Option Bytes :=
  if 45 ≤ major && major ≤ 48 then some ("1." ++ decimal (major.toNat - 44))
  else if 49 ≤ major && major ≤ 69 then some (decimal (major.toNat - 44))
  else none

/-- A name that stands for a method whose name does not resolve. -/
def noMethodName : Bytes := "N/A"

namespace ClassFile

/-- Major and minor version, divided by a point. -/
def version (file : ClassFile) : Bytes :=
  decimal file.major.toNat ++ "." ++ decimal file.minor.toNat

/-- Whether a class depends on preview features. -/
def preview (file : ClassFile) : Bool := 56 ≤ file.major && file.minor == 0xFFFF

/-- Whether the class is an interface. -/
def isInterface (file : ClassFile) : Bool := file.access &&& 0x0200 != 0

/-! ## Names -/

/-- The internal name of the class. -/
def name (file : ClassFile) : Except LookupError Bytes := file.pool.className file.thisClass

/-- The internal name of the superclass. A class without one has the empty name. -/
def superName (file : ClassFile) : Except LookupError Bytes :=
  if file.superClass = 0 then .ok [] else file.pool.className file.superClass

end ClassFile

/-- A failed lookup for a method, under the name that is known for it. -/
structure MethodError where
  method : Bytes
  reason : LookupError
  deriving DecidableEq, Repr

/-- The chain of a failed lookup for a method. -/
def MethodError.toFault (error : MethodError) : Fault :=
  .inMethod error.method error.reason.toFault

namespace ClassFile

/-- The name of a method. -/
def methodName (file : ClassFile) (method : Method) : Except MethodError Bytes :=
  (file.pool.utf8 method.name).mapError (MethodError.mk noMethodName)

/-- The name of a method, then its descriptor. A failure on the descriptor carries the
name. -/
def resolveMethod (file : ClassFile) (method : Method) : Except MethodError (Bytes × Bytes) := do
  let name ← file.methodName method
  let descriptor ← (file.pool.utf8 method.descriptor).mapError (MethodError.mk name)
  return (name, descriptor)

end ClassFile

end ClassAudit
