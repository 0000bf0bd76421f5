import ClassAudit.Bytes

/-!
# Type descriptors

A field type is a primitive letter or a class name under any number of array
dimensions; a method descriptor is a list of field types and a return type, which may
also be void. Descriptors are written without separators.
-/

set_option autoImplicit false

namespace ClassAudit

/-- What stands below the array dimensions: a one-letter type, or a class by its
internal name. -/
inductive ElementType where
  | letter (base : UInt8)
  | object (name : Bytes)
  deriving DecidableEq, Repr

/-- A type with its number of array dimensions. -/
structure TypeDescriptor where
  dims : Nat
  element : ElementType
  deriving DecidableEq, Repr

/-- The parameters of a method, in order, and its return type. -/
structure MethodDescriptor where
  params : List TypeDescriptor
  result : TypeDescriptor
  deriving DecidableEq, Repr

/-- The return type of a method that returns nothing. -/
def TypeDescriptor.void : TypeDescriptor := ⟨0, .letter 0x56⟩

/-- Whether a type is the void return type. An array of void is not. -/
def TypeDescriptor.isVoid (type : TypeDescriptor) : Bool := type == .void

/-- The source-code name of a one-letter type, void included. -/
def letterName? (base : UInt8) : Option Bytes :=
  match Char.ofNat base.toNat with
  | 'B' => some "byte"
  | 'C' => some "char"
  | 'D' => some "double"
  | 'F' => some "float"
  | 'I' => some "int"
  | 'J' => some "long"
  | 'S' => some "short"
  | 'Z' => some "boolean"
  | 'V' => some "void"
  | _ => none

/-- Whether a letter is a primitive field type. Void is none. -/
def isPrimitive (base : UInt8) : Bool := (letterName? base).isSome && base != 0x56

/-- The source-code form of an element type. A letter without a meaning has none. -/
def ElementType.text : ElementType → Bytes
  | .letter base => (letterName? base).getD []
  | .object name => name.replaceByte 0x2F "."

/-- The source-code form of a type, such as `int[][]` or `java.lang.String`. -/
def TypeDescriptor.text (type : TypeDescriptor) : Bytes :=
  type.element.text ++ (List.replicate type.dims (Bytes.ofString "[]")).flatten

/-! ## Written form -/

/-- The written form of an element type. -/
def ElementType.print : ElementType → Bytes
  | .letter base => [base]
  | .object name => [0x4C] ++ name ++ [0x3B]

/-- The written form of a type: its dimensions, then its element. -/
def TypeDescriptor.print (type : TypeDescriptor) : Bytes :=
  List.replicate type.dims 0x5B ++ type.element.print

/-- The written form of a method descriptor. -/
def MethodDescriptor.print (method : MethodDescriptor) : Bytes :=
  [0x28] ++ method.params.flatMap TypeDescriptor.print ++ [0x29] ++ method.result.print

/-- The letters of the primitive field types. -/
def primitiveLetters : Bytes := "BCDFIJSZ"

/-- An element type of a field: a primitive letter, or a class whose name is not empty
and holds no semicolon. -/
def ElementType.IsField : ElementType → Prop
  | .letter base => base ∈ primitiveLetters
  | .object name => name ≠ [] ∧ (0x3B : UInt8) ∉ name

instance (element : ElementType) : Decidable element.IsField :=
  match element with
  | .letter base => inferInstanceAs (Decidable (base ∈ primitiveLetters))
  | .object name => inferInstanceAs (Decidable (name ≠ [] ∧ (0x3B : UInt8) ∉ name))

/-- A type that a field or a parameter can have. -/
def TypeDescriptor.IsField (type : TypeDescriptor) : Prop := type.element.IsField

instance (type : TypeDescriptor) : Decidable type.IsField :=
  inferInstanceAs (Decidable type.element.IsField)

/-- A method with field types as parameters that returns a field type or nothing. -/
def MethodDescriptor.IsProper (method : MethodDescriptor) : Prop :=
  (∀ param ∈ method.params, param.IsField) ∧ (method.result.IsField ∨ method.result = .void)

instance (method : MethodDescriptor) : Decidable method.IsProper :=
  @instDecidableAnd _ _ (List.decidableBAll _ method.params) inferInstance

end ClassAudit
