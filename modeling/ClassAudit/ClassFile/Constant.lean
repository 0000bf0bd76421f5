import ClassAudit.Bytes

/-!
# Constants

The seventeen kinds of constant pool entries, their tag bytes and their written form.
-/

set_option autoImplicit false

namespace ClassAudit

/-- The kind of a constant pool entry. -/
inductive Tag where
  | utf8
  | integer
  | float
  | long
  | double
  | classRef
  | string
  | fieldref
  | methodref
  | interfaceMethodref
  | nameAndType
  | methodHandle
  | methodType
  | dynamic
  | invokeDynamic
  | module
  | package
  deriving DecidableEq, Repr

namespace Tag

/-- The byte that announces an entry of this kind. -/
def byte : Tag → UInt8
  | .utf8 => 1
  | .integer => 3
  | .float => 4
  | .long => 5
  | .double => 6
  | .classRef => 7
  | .string => 8
  | .fieldref => 9
  | .methodref => 10
  | .interfaceMethodref => 11
  | .nameAndType => 12
  | .methodHandle => 15
  | .methodType => 16
  | .dynamic => 17
  | .invokeDynamic => 18
  | .module => 19
  | .package => 20

/-- The kind that a tag byte announces. -/
def ofByte? : UInt8 → Option Tag
  | 1 => some .utf8
  | 3 => some .integer
  | 4 => some .float
  | 5 => some .long
  | 6 => some .double
  | 7 => some .classRef
  | 8 => some .string
  | 9 => some .fieldref
  | 10 => some .methodref
  | 11 => some .interfaceMethodref
  | 12 => some .nameAndType
  | 15 => some .methodHandle
  | 16 => some .methodType
  | 17 => some .dynamic
  | 18 => some .invokeDynamic
  | 19 => some .module
  | 20 => some .package
  | _ => none

/-- The name of a kind in messages. -/
def name : Tag → Bytes
  | .utf8 => "Utf8"
  | .integer => "Integer"
  | .float => "Float"
  | .long => "Long"
  | .double => "Double"
  | .classRef => "Class"
  | .string => "String"
  | .fieldref => "Fieldref"
  | .methodref => "Methodref"
  | .interfaceMethodref => "InterfaceMethodref"
  | .nameAndType => "NameAndType"
  | .methodHandle => "MethodHandle"
  | .methodType => "MethodType"
  | .dynamic => "Dynamic"
  | .invokeDynamic => "InvokeDynamic"
  | .module => "Module"
  | .package => "Package"

/-- Whether entries of this kind take two pool slots. -/
def wide : Tag → Bool
  | .long => true
  | .double => true
  | _ => false

end Tag

/-- The name of the kind that a byte announces, known or not. -/
def tagByteName (byte : UInt8) : Bytes :=
  match Tag.ofByte? byte with
  | some tag => tag.name
  | none => "Unknown(" ++ decimal byte.toNat ++ ")"

/-- Whether a tag byte announces an entry of two slots. -/
def tagByteWide (byte : UInt8) : Bool := (Tag.ofByte? byte).any Tag.wide

/-- An index into a constant pool. Index 0 names no entry. -/
abbrev PoolIndex := UInt16

/-- What kind of member a reference names. -/
inductive MemberKind where
  | field
  | method
  | interfaceMethod
  deriving DecidableEq, Repr

/-- The tag of a member reference. -/
def MemberKind.tag : MemberKind → Tag
  | .field => .fieldref
  | .method => .methodref
  | .interfaceMethod => .interfaceMethodref

/-- One constant pool entry. Floating-point values are kept as their bits. -/
inductive Constant where
  | utf8 (text : Bytes)
  | integer (value : Int32)
  | float (bits : UInt32)
  | long (value : Int64)
  | double (bits : UInt64)
  | classRef (name : PoolIndex)
  | string (text : PoolIndex)
  | member (kind : MemberKind) (owner signature : PoolIndex)
  | nameAndType (name descriptor : PoolIndex)
  | methodHandle (kind : UInt8) (reference : PoolIndex)
  | methodType (descriptor : PoolIndex)
  | dynamic (bootstrap signature : PoolIndex)
  | invokeDynamic (bootstrap signature : PoolIndex)
  | module (name : PoolIndex)
  | package (name : PoolIndex)
  deriving DecidableEq, Repr

namespace Constant

/-- The kind of an entry. -/
def tag : Constant → Tag
  | .utf8 _ => .utf8
  | .integer _ => .integer
  | .float _ => .float
  | .long _ => .long
  | .double _ => .double
  | .classRef _ => .classRef
  | .string _ => .string
  | .member kind _ _ => kind.tag
  | .nameAndType _ _ => .nameAndType
  | .methodHandle _ _ => .methodHandle
  | .methodType _ => .methodType
  | .dynamic _ _ => .dynamic
  | .invokeDynamic _ _ => .invokeDynamic
  | .module _ => .module
  | .package _ => .package

/-- How many pool slots an entry takes. -/
def slots (constant : Constant) : Nat := if constant.tag.wide then 2 else 1

/-- The bytes after the tag. The length of a text is written modulo 65536. -/
def body : Constant → Bytes
  | .utf8 text => bytesOfU2 text.length.toUInt16 ++ text
  | .integer value => bytesOfU4 value.toUInt32
  | .float bits => bytesOfU4 bits
  | .long value => bytesOfU8 value.toUInt64
  | .double bits => bytesOfU8 bits
  | .classRef name => bytesOfU2 name
  | .string text => bytesOfU2 text
  | .member _ owner signature => bytesOfU2 owner ++ bytesOfU2 signature
  | .nameAndType name descriptor => bytesOfU2 name ++ bytesOfU2 descriptor
  | .methodHandle kind reference => kind :: bytesOfU2 reference
  | .methodType descriptor => bytesOfU2 descriptor
  | .dynamic bootstrap signature => bytesOfU2 bootstrap ++ bytesOfU2 signature
  | .invokeDynamic bootstrap signature => bytesOfU2 bootstrap ++ bytesOfU2 signature
  | .module name => bytesOfU2 name
  | .package name => bytesOfU2 name

/-- The written form of an entry. -/
def encode (constant : Constant) : Bytes := constant.tag.byte :: constant.body

end Constant

end ClassAudit
