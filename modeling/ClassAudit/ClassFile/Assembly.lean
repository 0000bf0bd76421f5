import ClassAudit.ClassFile.Layout

/-!
# Assembling class files

An assembly collects constants, members and attributes and writes them as a class file.
Texts and class constants are shared: asking for one again gives the same index.
Indices and counts are sixteen bits wide and wrap.
-/

set_option autoImplicit false

namespace ClassAudit

/-- A pool entry to be written: a constant, or any tag with any body. -/
inductive PoolItem where
  | constant (constant : Constant)
  | raw (tag : UInt8) (body : Bytes)
  deriving DecidableEq, Repr

/-- The written form of a pool entry. -/
def PoolItem.encode : PoolItem → Bytes
  | .constant value => value.encode
  | .raw tag body => tag :: body

/-- How many slots an entry takes. A raw entry always takes one. -/
def PoolItem.slots : PoolItem → Nat
  | .constant value => value.slots
  | .raw _ _ => 1

/-- A class file under construction. `next` is the index of the next pool entry, and an
index of 0 means that the class or its superclass is not named yet. -/
structure Assembly where
  minor : UInt16
  major : UInt16
  access : UInt16
  pool : List PoolItem
  next : PoolIndex
  texts : List (Bytes × PoolIndex)
  classes : List (Bytes × PoolIndex)
  thisClass : PoolIndex
  superClass : PoolIndex
  noSuper : Bool
  interfaces : List PoolIndex
  fields : List Member
  methods : List Member
  attributes : List Attribute
  trailing : Bytes
  deriving DecidableEq, Repr

/-- A public class for Java 8 with an empty pool. -/
def Assembly.new : Assembly :=
  { minor := 0, major := 52, access := 0x0021, pool := [], next := 1, texts := [],
    classes := [], thisClass := 0, superClass := 0, noSuper := false, interfaces := [],
    fields := [], methods := [], attributes := [], trailing := [] }

/-- A step that changes an assembly and returns a value. -/
abbrev Assembling := StateM Assembly

namespace Assembling

/-- Appends a pool entry and returns its index. -/
def add (item : PoolItem) : Assembling PoolIndex := fun assembly =>
  (assembly.next,
    { assembly with pool := assembly.pool ++ [item],
                    next := assembly.next + item.slots.toUInt16 })

/-- Appends a constant and returns its index. -/
def addConstant (constant : Constant) : Assembling PoolIndex := add (.constant constant)

/-- The index of a text, added on first use. -/
def text (value : Bytes) : Assembling PoolIndex := do
  match (← get).texts.lookup value with
  | some index => return index
  | none =>
      let index ← addConstant (.utf8 value)
      modify fun assembly => { assembly with texts := (value, index) :: assembly.texts }
      return index

/-- The index of a class by name, added on first use. -/
def className (name : Bytes) : Assembling PoolIndex := do
  match (← get).classes.lookup name with
  | some index => return index
  | none =>
      let nameIndex ← text name
      let index ← addConstant (.classRef nameIndex)
      modify fun assembly => { assembly with classes := (name, index) :: assembly.classes }
      return index

/-- Appends a string constant. -/
def string (value : Bytes) : Assembling PoolIndex := do
  addConstant (.string (← text value))

/-- Appends a name and descriptor. -/
def nameAndType (name descriptor : Bytes) : Assembling PoolIndex := do
  let nameIndex ← text name
  let descriptorIndex ← text descriptor
  addConstant (.nameAndType nameIndex descriptorIndex)

/-- Appends a member reference. -/
def member (kind : MemberKind) (owner name descriptor : Bytes) : Assembling PoolIndex := do
  let ownerIndex ← className owner
  let signature ← nameAndType name descriptor
  addConstant (.member kind ownerIndex signature)

/-- An attribute with its name in the pool. -/
def namedAttribute (name body : Bytes) : Assembling Attribute := do
  return ⟨← text name, body⟩

/-- Names the class. -/
def setThis (name : Bytes) : Assembling Unit := do
  let index ← className name
  modify fun assembly => { assembly with thisClass := index }

/-- Names the superclass. -/
def setSuper (name : Bytes) : Assembling Unit := do
  let index ← className name
  modify fun assembly => { assembly with superClass := index }

/-- Leaves the superclass unnamed for good. -/
def setNoSuper : Assembling Unit :=
  modify fun assembly => { assembly with noSuper := true }

/-- Appends an interface. -/
def addInterface (name : Bytes) : Assembling Unit := do
  let index ← className name
  modify fun assembly => { assembly with interfaces := assembly.interfaces ++ [index] }

/-- Appends a private field with an empty attribute. -/
def addField (name descriptor : Bytes) : Assembling Unit := do
  let nameIndex ← text name
  let descriptorIndex ← text descriptor
  let mark ← namedAttribute "Synthetic" []
  modify fun assembly =>
    { assembly with
      fields := assembly.fields ++ [⟨0x0002, nameIndex, descriptorIndex, [mark]⟩] }

/-- The body of a code attribute with a single return instruction. -/
def returnCode : Bytes := [0, 1, 0, 1, 0, 0, 0, 1, 0xB1, 0, 0, 0, 0]

/-- Appends a method with arbitrary flags and indices. -/
def addMethodIndices (access : UInt16) (name descriptor : PoolIndex) : Assembling Unit := do
  let code ← namedAttribute "Code" returnCode
  modify fun assembly =>
    { assembly with methods := assembly.methods ++ [⟨access, name, descriptor, [code]⟩] }

/-- Appends a public method. -/
def addMethod (name descriptor : Bytes) : Assembling Unit := do
  let nameIndex ← text name
  let descriptorIndex ← text descriptor
  addMethodIndices 0x0001 nameIndex descriptorIndex

/-- Appends a class attribute. -/
def addAttribute (name body : Bytes) : Assembling Unit := do
  let item ← namedAttribute name body
  modify fun assembly => { assembly with attributes := assembly.attributes ++ [item] }

/-- Appends bytes after the class attributes. -/
def addTrailing (bytes : Bytes) : Assembling Unit :=
  modify fun assembly => { assembly with trailing := assembly.trailing ++ bytes }

end Assembling

/-- The written form of an assembly as it stands. -/
def Assembly.encode (assembly : Assembly) : Bytes :=
  bytesOfU4 classMagic ++ bytesOfU2 assembly.minor ++ bytesOfU2 assembly.major ++
    bytesOfU2 assembly.next ++ assembly.pool.flatMap PoolItem.encode ++
    bytesOfU2 assembly.access ++ bytesOfU2 assembly.thisClass ++
    bytesOfU2 assembly.superClass ++ encodeTable bytesOfU2 assembly.interfaces ++
    encodeTable Member.encode assembly.fields ++ encodeTable Member.encode assembly.methods ++
    encodeTable Attribute.encode assembly.attributes ++ assembly.trailing

/-- Names the class and its superclass where they are missing, and writes the file. -/
def Assembling.finish : Assembling Bytes := do
  if (← get).thisClass = 0 then setThis "Test"
  if (← get).superClass = 0 && !(← get).noSuper then setSuper "java/lang/Object"
  return (← get).encode

/-! ## Steps -/

/-- One request to an assembly. -/
inductive AssemblyStep where
  | text (value : Bytes)
  | className (name : Bytes)
  | integer (value : Int32)
  | long (value : Int64)
  | double (bits : UInt64)
  | string (value : Bytes)
  | nameAndType (name descriptor : Bytes)
  | member (kind : MemberKind) (owner name descriptor : Bytes)
  | raw (tag : UInt8) (body : Bytes)
  | setThis (name : Bytes)
  | setSuper (name : Bytes)
  | setNoSuper
  | addInterface (name : Bytes)
  | addField (name descriptor : Bytes)
  | addMethod (name descriptor : Bytes)
  | addMethodIndices (access : UInt16) (name descriptor : PoolIndex)
  | addAttribute (name body : Bytes)
  | addTrailing (bytes : Bytes)
  | finish
  deriving DecidableEq, Repr

/-- What a step returns. -/
inductive AssemblyItem where
  | index (index : PoolIndex)
  | file (bytes : Bytes)
  | nothing
  deriving DecidableEq, Repr

/-- Runs one step. -/
def AssemblyStep.run : AssemblyStep → Assembling AssemblyItem
  | .text value => .index <$> Assembling.text value
  | .className name => .index <$> Assembling.className name
  | .integer value => .index <$> Assembling.addConstant (.integer value)
  | .long value => .index <$> Assembling.addConstant (.long value)
  | .double bits => .index <$> Assembling.addConstant (.double bits)
  | .string value => .index <$> Assembling.string value
  | .nameAndType name descriptor => .index <$> Assembling.nameAndType name descriptor
  | .member kind owner name descriptor =>
      .index <$> Assembling.member kind owner name descriptor
  | .raw tag body => .index <$> Assembling.add (.raw tag body)
  | .setThis name => do Assembling.setThis name; return .nothing
  | .setSuper name => do Assembling.setSuper name; return .nothing
  | .setNoSuper => do Assembling.setNoSuper; return .nothing
  | .addInterface name => do Assembling.addInterface name; return .nothing
  | .addField name descriptor => do Assembling.addField name descriptor; return .nothing
  | .addMethod name descriptor => do Assembling.addMethod name descriptor; return .nothing
  | .addMethodIndices access name descriptor => do
      Assembling.addMethodIndices access name descriptor
      return .nothing
  | .addAttribute name body => do Assembling.addAttribute name body; return .nothing
  | .addTrailing bytes => do Assembling.addTrailing bytes; return .nothing
  | .finish => .file <$> Assembling.finish

/-- Runs steps in order on one assembly. -/
def runAssembly : List AssemblyStep → Assembly → List AssemblyItem × Assembly
  | [], assembly => ([], assembly)
  | step :: steps, assembly =>
      let (item, assembly) := step.run assembly
      let (items, assembly) := runAssembly steps assembly
      (item :: items, assembly)

end ClassAudit
