import ClassAudit.ClassFile.Constant

/-!
# Class-file layout

The parts of a class file as they stand in the file, and their big-endian written form.
Fields and attributes are opaque here: a field is six header bytes with attributes, an
attribute is a name index with a body.
-/

set_option autoImplicit false

namespace ClassAudit

/-- The first word of every class file. -/
def classMagic : UInt32 := 0xCAFEBABE

/-- A named body of bytes. -/
structure Attribute where
  name : PoolIndex
  body : Bytes
  deriving DecidableEq, Repr

/-- A field or method: access flags, name, descriptor and attributes. -/
structure Member where
  access : UInt16
  name : PoolIndex
  descriptor : PoolIndex
  attributes : List Attribute
  deriving DecidableEq, Repr

/-- A class file before its constants are interpreted. `poolCount` is the declared
constant pool count; texts are constant bodies. -/
structure RawClass where
  minor : UInt16
  major : UInt16
  poolCount : UInt16
  constants : List Constant
  access : UInt16
  thisClass : PoolIndex
  superClass : PoolIndex
  interfaces : List PoolIndex
  fields : List Member
  methods : List Member
  attributes : List Attribute
  deriving DecidableEq, Repr

/-- A two-byte count, modulo 65536, and the written items. -/
def encodeTable {α : Type} (encode : α → Bytes) (items : List α) : Bytes :=
  bytesOfU2 items.length.toUInt16 ++ items.flatMap encode

/-- The written form of an attribute. -/
def Attribute.encode (item : Attribute) : Bytes :=
  bytesOfU2 item.name ++ bytesOfU4 item.body.length.toUInt32 ++ item.body

/-- The written form of a field or method. -/
def Member.encode (member : Member) : Bytes :=
  bytesOfU2 member.access ++ bytesOfU2 member.name ++ bytesOfU2 member.descriptor ++
    encodeTable Attribute.encode member.attributes

namespace RawClass

/-- Everything before the method table's entries. -/
def encodeBeforeMethods (raw : RawClass) : Bytes :=
  bytesOfU4 classMagic ++ bytesOfU2 raw.minor ++ bytesOfU2 raw.major ++
    bytesOfU2 raw.poolCount ++ raw.constants.flatMap Constant.encode ++
    bytesOfU2 raw.access ++ bytesOfU2 raw.thisClass ++ bytesOfU2 raw.superClass ++
    encodeTable bytesOfU2 raw.interfaces ++ encodeTable Member.encode raw.fields ++
    bytesOfU2 raw.methods.length.toUInt16

/-- The written form of a class. -/
def encode (raw : RawClass) : Bytes :=
  raw.encodeBeforeMethods ++ raw.methods.flatMap Member.encode ++
    encodeTable Attribute.encode raw.attributes

end RawClass

/-- Offsets of consecutive written members, the first at `start`. -/
def memberOffsets : Nat → List Member → List Nat
  | _, [] => []
  | start, member :: members => start :: memberOffsets (start + member.encode.length) members

/-- File offsets of the entries of the method table. -/
def RawClass.methodOffsets (raw : RawClass) : List Nat :=
  memberOffsets raw.encodeBeforeMethods.length raw.methods

/-- The slot after a sequence of constants laid out from `start`. -/
def slotAfter (start : Nat) (constants : List Constant) : Nat :=
  constants.foldl (fun slot constant => slot + constant.slots) start

end ClassAudit
