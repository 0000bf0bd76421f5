import ClassAudit.ClassFile.Layout
import ClassAudit.Descriptor.Reading
import ClassAudit.Stream

/-!
# Reading the layout

A class file is read in a single forward pass. Every read that runs out of data is
reported with the place it was made for and the offset where that place starts.
-/

set_option autoImplicit false

namespace ClassAudit

/-- Whose attributes are read. -/
inductive AttributeOwner where
  | field (index : Nat)
  | method (index : Nat)
  | wholeClass
  deriving DecidableEq, Repr

/-- An attribute owner in messages. -/
def AttributeOwner.text : AttributeOwner → Bytes
  | .field index => "field " ++ decimal index
  | .method index => "method " ++ decimal index
  | .wholeClass => "class"

/-- What a read was made for. -/
inductive Place where
  | constantTag (index : Nat)
  | constant (index : Nat) (tag : Tag)
  | accessFlags
  | thisClass
  | superClass
  | interfacesCount
  | interfaceIndex
  | fieldsCount
  | field (index : Nat)
  | methodsCount
  | methodAccess (index : Nat)
  | methodName (index : Nat)
  | methodDescriptor (index : Nat)
  | attributesCount (owner : AttributeOwner)
  | attribute (owner : AttributeOwner) (index : Nat)
  deriving DecidableEq, Repr

/-- A place in messages. -/
def Place.text : Place → Bytes
  | .constantTag index => "constant #" ++ decimal index ++ " tag"
  | .constant index tag => "constant #" ++ decimal index ++ " (" ++ tag.name ++ ")"
  | .accessFlags => "access_flags"
  | .thisClass => "this_class"
  | .superClass => "super_class"
  | .interfacesCount => "interfaces_count"
  | .interfaceIndex => "interface index"
  | .fieldsCount => "fields_count"
  | .field index => "field " ++ decimal index
  | .methodsCount => "methods_count"
  | .methodAccess index => "method " ++ decimal index ++ " access_flags"
  | .methodName index => "method " ++ decimal index ++ " name_index"
  | .methodDescriptor index => "method " ++ decimal index ++ " descriptor_index"
  | .attributesCount owner => owner.text ++ " attributes_count"
  | .attribute owner index => owner.text ++ " attribute " ++ decimal index

/-- Why a class file was refused. -/
inductive DecodeError where
  | shortHeader (size : Nat)
  | badMagic (magic : UInt32)
  | emptyPool
  | truncated (place : Place) (offset : Nat) (reason : StreamError)
  | unknownTag (index offset : Nat) (tag : UInt8)
  | trailingData (count offset : Nat)
  | invalidDescriptor (method offset : Nat) (reason : DescriptorError)
  deriving DecidableEq, Repr

/-- The length of the part up to and including the constant pool count. -/
def headerSize : Nat := 10

/-- The chain of a refused class file. -/
def DecodeError.toFault : DecodeError → Fault
  | .shortHeader size =>
      .classifiedBy .parse
        (decimal size ++ " bytes is shorter than the " ++ decimal headerSize ++
          "-byte header") (.cause .malformedHeader)
  | .badMagic magic =>
      .classifiedBy .parse ("bad magic 0x" ++ hexPadded 8 magic.toNat)
        (.cause .malformedHeader)
  | .emptyPool => .classifiedBy .parse "constant_pool_count is 0" (.cause .malformedHeader)
  | .truncated place offset reason =>
      .classifiedBy .parse (place.text ++ " at offset " ++ decimal offset)
        (.detailed (.cause .unexpectedEnd) reason.toFault)
  | .unknownTag index offset tag =>
      .classifiedBy .parse
        ("constant #" ++ decimal index ++ " at offset " ++ decimal offset ++ " has tag " ++
          decimal tag.toNat) (.cause .unknownTag)
  | .trailingData count offset =>
      .classifiedBy .parse (decimal count ++ " bytes after offset " ++ decimal offset)
        (.cause .trailingData)
  | .invalidDescriptor method offset reason =>
      .classifiedBy .invalidDescriptor
        ("method " ++ decimal method ++ " at offset " ++ decimal offset) reason.toFault

/-- A reading step of the class-file layout. -/
abbrev LayoutReader (α : Type) := Cursor → Except DecodeError (α × Cursor)

/-- Reports a failed read with its place and the offset where the place starts. -/
def forPlace {α : Type} (place : Place) (offset : Nat) :
    Except StreamError α → Except DecodeError α
  | .ok value => .ok value
  | .error reason => .error (.truncated place offset reason)

/-- A word read for a place that starts with it. -/
def readWord (place : Place) : LayoutReader UInt16 := fun cursor =>
  forPlace place cursor.position cursor.u2

/-- Reads `count` items numbered from `index`, added to those already read. -/
def readItems {α : Type} (item : Nat → LayoutReader α) :
    (count index : Nat) → List α → LayoutReader (List α)
  | 0, _, read, cursor => .ok (read.reverse, cursor)
  | count + 1, index, read, cursor => do
      let (value, next) ← item index cursor
      readItems item count (index + 1) (value :: read) next

/-- A two-byte count and that many items numbered from 0. -/
def readTable {α : Type} (place : Place) (item : Nat → LayoutReader α) :
    LayoutReader (List α) := fun cursor => do
  let (count, next) ← readWord place cursor
  readItems item count.toNat 0 [] next

/-! ## Constants -/

/-- Two words in a row. -/
def Cursor.wordPair (cursor : Cursor) :
    Except StreamError ((UInt16 × UInt16) × Cursor) := do
  let (first, next) ← cursor.u2
  let (second, next) ← next.u2
  return ((first, second), next)

/-- A two-byte length and that many bytes. -/
def Cursor.shortBlob (cursor : Cursor) : Except StreamError (Bytes × Cursor) := do
  let (length, next) ← cursor.u2
  next.take length.toNat

/-- A byte and a word. -/
def Cursor.byteAndWord (cursor : Cursor) :
    Except StreamError ((UInt8 × UInt16) × Cursor) := do
  let (byte, next) ← cursor.u1
  let (word, next) ← next.u2
  return ((byte, word), next)

/-- Applies a function to what a read returned. -/
def onValue {α β : Type} (f : α → β) :
    Except StreamError (α × Cursor) → Except StreamError (β × Cursor)
  | .ok (value, next) => .ok (f value, next)
  | .error reason => .error reason

/-- The body of a constant of a known kind. -/
def readConstantBody (tag : Tag) (cursor : Cursor) :
    Except StreamError (Constant × Cursor) :=
  match tag with
  | .utf8 => onValue .utf8 cursor.shortBlob
  | .integer => onValue (fun word => .integer word.toInt32) cursor.u4
  | .float => onValue .float cursor.u4
  | .long => onValue (fun word => .long word.toInt64) cursor.u8
  | .double => onValue .double cursor.u8
  | .classRef => onValue .classRef cursor.u2
  | .string => onValue .string cursor.u2
  | .methodType => onValue .methodType cursor.u2
  | .module => onValue .module cursor.u2
  | .package => onValue .package cursor.u2
  | .fieldref => onValue (fun (owner, signature) => .member .field owner signature) cursor.wordPair
  | .methodref =>
      onValue (fun (owner, signature) => .member .method owner signature) cursor.wordPair
  | .interfaceMethodref =>
      onValue (fun (owner, signature) => .member .interfaceMethod owner signature) cursor.wordPair
  | .nameAndType => onValue (fun (name, type) => .nameAndType name type) cursor.wordPair
  | .dynamic => onValue (fun (bootstrap, signature) => .dynamic bootstrap signature) cursor.wordPair
  | .invokeDynamic =>
      onValue (fun (bootstrap, signature) => .invokeDynamic bootstrap signature) cursor.wordPair
  | .methodHandle =>
      onValue (fun (kind, reference) => .methodHandle kind reference) cursor.byteAndWord

/-- The constant for a pool slot. -/
def readConstant (slot : Nat) : LayoutReader Constant := fun cursor => do
  let (byte, next) ← forPlace (.constantTag slot) cursor.position cursor.u1
  match Tag.ofByte? byte with
  | none => .error (.unknownTag slot cursor.position byte)
  | some tag => forPlace (.constant slot tag) cursor.position (readConstantBody tag next)

theorem Constant.slots_pos (constant : Constant) : 0 < constant.slots := by
  unfold Constant.slots
  split <;> omega

/-- Constants from a slot until the declared count is reached, added to those already
read. A wide constant in the last slot takes only that one. -/
def readConstants (count slot : Nat) (read : List Constant) : LayoutReader (List Constant) :=
  fun cursor =>
    if slot < count then do
      let (constant, next) ← readConstant slot cursor
      readConstants count (slot + constant.slots) (constant :: read) next
    else .ok (read.reverse, cursor)
termination_by count - slot
decreasing_by
  have := Constant.slots_pos constant
  omega

/-! ## Members and attributes -/

/-- An attribute with its number in the owner's table. -/
def readAttribute (owner : AttributeOwner) (index : Nat) : LayoutReader Attribute :=
  fun cursor => do
    let place := Place.attribute owner index
    let (name, next) ← forPlace place cursor.position cursor.u2
    let (body, next) ← forPlace place cursor.position next.blob
    return (⟨name, body⟩, next)

/-- An attribute table. -/
def readAttributes (owner : AttributeOwner) : LayoutReader (List Attribute) :=
  readTable (.attributesCount owner) (readAttribute owner)

/-- Six opaque bytes as three words. -/
def Cursor.wordTriple (cursor : Cursor) :
    Except StreamError ((UInt16 × UInt16 × UInt16) × Cursor) := do
  let (taken, next) ← cursor.take 6
  let word (start : Nat) : UInt16 := (bigEndian ((taken.drop start).take 2)).toUInt16
  return ((word 0, word 2, word 4), next)

/-- A field. Its six header bytes are read as one piece. -/
def readField (index : Nat) : LayoutReader Member := fun cursor => do
  let ((access, name, descriptor), next) ←
    forPlace (.field index) cursor.position cursor.wordTriple
  let (attributes, next) ← readAttributes (.field index) next
  return (⟨access, name, descriptor, attributes⟩, next)

/-- A method. -/
def readMethodEntry (index : Nat) : LayoutReader Member := fun cursor => do
  let (access, next) ← readWord (.methodAccess index) cursor
  let (name, next) ← readWord (.methodName index) next
  let (descriptor, next) ← readWord (.methodDescriptor index) next
  let (attributes, next) ← readAttributes (.method index) next
  return (⟨access, name, descriptor, attributes⟩, next)

/-! ## Classes -/

/-- The header: minor and major version and the constant pool count. A short or foreign
header is refused before anything else. -/
def readHeader (data : Bytes) : Except DecodeError ((UInt16 × UInt16 × UInt16) × Cursor) :=
  match data.split? headerSize with
  | none => .error (.shortHeader data.length)
  | some (header, rest) =>
      let word (start : Nat) : UInt16 := (bigEndian ((header.drop start).take 2)).toUInt16
      let magic := (bigEndian (header.take 4)).toUInt32
      if magic ≠ classMagic then .error (.badMagic magic)
      else if word 8 = 0 then .error .emptyPool
      else .ok ((word 4, word 6, word 8), ⟨headerSize, rest⟩)

/-- The parts behind a header, up to the cursor after the class attributes. -/
def readParts (minor major poolCount : UInt16) : LayoutReader RawClass := fun cursor => do
  let (constants, next) ← readConstants poolCount.toNat 1 [] cursor
  let (access, next) ← readWord .accessFlags next
  let (thisClass, next) ← readWord .thisClass next
  let (superClass, next) ← readWord .superClass next
  let (interfaces, next) ← readTable .interfacesCount (fun _ => readWord .interfaceIndex) next
  let (fields, next) ← readTable .fieldsCount readField next
  let (methods, next) ← readTable .methodsCount readMethodEntry next
  let (attributes, next) ← readAttributes .wholeClass next
  return (⟨minor, major, poolCount, constants, access, thisClass, superClass, interfaces,
    fields, methods, attributes⟩, next)

/-- The parts of a class file, and the cursor after its attributes. -/
def readClass (data : Bytes) : Except DecodeError (RawClass × Cursor) := do
  let ((minor, major, poolCount), next) ← readHeader data
  readParts minor major poolCount next

end ClassAudit
