import ClassAudit.Descriptor.Basic
import ClassAudit.Fault
import ClassAudit.Text.Quoted

/-!
# Reading descriptors

A descriptor is read from left to right. Leading brackets belong to the type they
precede, and a class name runs to the next semicolon, whatever it contains. The first
flaw ends the reading.
-/

set_option autoImplicit false

namespace ClassAudit

/-- Why a text is no descriptor. Positions count bytes from the start of the text. -/
inductive DescriptorFlaw where
  | noOpening
  | noClosing
  | noReturn
  | trailing (position : Nat)
  | openArray
  | unterminatedClass (position : Nat)
  | emptyClass (position : Nat)
  | unexpected (byte : UInt8) (position : Nat)
  deriving DecidableEq, Repr

/-- What a message says about a flaw. -/
def DescriptorFlaw.text : DescriptorFlaw → Bytes
  | .noOpening => "does not start with '('"
  | .noClosing => "has no closing ')'"
  | .noReturn => "is missing a return type"
  | .trailing position => "has trailing data at " ++ decimal position
  | .openArray => "ends inside an array type"
  | .unterminatedClass position => "has an unterminated class type at " ++ decimal position
  | .emptyClass position => "has an empty class name at " ++ decimal position
  | .unexpected byte position =>
      "has unexpected " ++ quotedByte byte ++ " at " ++ decimal position

/-- A flaw together with the whole text it was found in. -/
structure DescriptorError where
  text : Bytes
  flaw : DescriptorFlaw
  deriving DecidableEq, Repr

/-- The chain of a rejected descriptor. -/
def DescriptorError.toFault (error : DescriptorError) : Fault :=
  .detailed (.cause .invalidSyntax) (.plain (quoted error.text ++ " " ++ error.flaw.text))

/-- The element type at a position, and the text after it. -/
def readElement (position : Nat) : Bytes → Except DescriptorFlaw (ElementType × Bytes)
  | [] => .error .openArray
  | first :: rest =>
      if isPrimitive first then .ok (.letter first, rest)
      else if first = 0x4C then
        let name := rest.takeWhile (· != 0x3B)
        match rest.dropWhile (· != 0x3B) with
        | [] => .error (.unterminatedClass position)
        | _ :: after =>
            if name = [] then .error (.emptyClass position) else .ok (.object name, after)
      else .error (.unexpected first position)

/-- The field type at a position, and the text after it. -/
def readType (position : Nat) (text : Bytes) :
    Except DescriptorFlaw (TypeDescriptor × Bytes) := do
  let dims := (text.takeWhile (· == 0x5B)).length
  let (element, rest) ← readElement (position + dims) (text.dropWhile (· == 0x5B))
  return (⟨dims, element⟩, rest)

theorem length_dropWhile_le {α : Type} (test : α → Bool) (list : List α) :
    (list.dropWhile test).length ≤ list.length :=
  (List.dropWhile_suffix test).length_le

/-- An element type takes at least one byte. -/
theorem readElement_length_lt {position : Nat} {text : Bytes} {element : ElementType}
    {rest : Bytes} (read : readElement position text = .ok (element, rest)) :
    rest.length < text.length := by
  cases text with
  | nil => simp [readElement] at read
  | cons first tail =>
      simp only [readElement] at read
      split at read
      · simp only [Except.ok.injEq, Prod.mk.injEq] at read
        simp [← read.2]
      · split at read
        · split at read
          · simp at read
          · rename_i separator after dropped
            split at read
            · simp at read
            · simp only [Except.ok.injEq, Prod.mk.injEq] at read
              have bound := length_dropWhile_le (· != 0x3B) tail
              rw [dropped] at bound
              simp only [List.length_cons] at bound ⊢
              rw [← read.2]
              omega
        · simp at read

/-- A type takes at least one byte. -/
theorem readType_length_lt {position : Nat} {text : Bytes} {type : TypeDescriptor}
    {rest : Bytes} (read : readType position text = .ok (type, rest)) :
    rest.length < text.length := by
  simp only [readType, bind, Except.bind, pure, Except.pure] at read
  split at read
  · simp at read
  · rename_i found element
    simp only [Except.ok.injEq, Prod.mk.injEq] at read
    have shorter := readElement_length_lt element
    have bound := length_dropWhile_le (· == 0x5B) text
    rw [← read.2]
    omega

/-- The parameter types from a position up to the closing parenthesis, added to those
already read, and the position and text after it. -/
def readParams (position : Nat) (text : Bytes) (read : List TypeDescriptor) :
    Except DescriptorFlaw (List TypeDescriptor × Nat × Bytes) :=
  match text with
  | [] => .error .noClosing
  | first :: after =>
      if first = 0x29 then .ok (read.reverse, position + 1, after)
      else
        match _typed : readType position (first :: after) with
        | .error flaw => .error flaw
        | .ok (type, rest) =>
            readParams (position + ((first :: after).length - rest.length)) rest
              (type :: read)
termination_by text.length
decreasing_by exact readType_length_lt _typed

/-- The return type at a position, and the text after it. -/
def readReturn (position : Nat) : Bytes → Except DescriptorFlaw (TypeDescriptor × Bytes)
  | [] => .error .noReturn
  | first :: rest =>
      if first = 0x56 then .ok (.void, rest) else readType position (first :: rest)

/-- Requires that nothing is left after a reading. -/
def atEnd {α : Type} (length : Nat) : α × Bytes → Except DescriptorFlaw α
  | (value, []) => .ok value
  | (_, rest) => .error (.trailing (length - rest.length))

/-- A whole text as a method descriptor, or its first flaw. -/
def readMethod (text : Bytes) : Except DescriptorFlaw MethodDescriptor :=
  match text with
  | [] => .error .noOpening
  | first :: after =>
      if first = 0x28 then do
        let (params, position, rest) ← readParams 1 after []
        let ended ← readReturn position rest
        let result ← atEnd text.length ended
        return ⟨params, result⟩
      else .error .noOpening

namespace MethodDescriptor

/-- A whole text as a method descriptor. -/
def parse (text : Bytes) : Except DescriptorError MethodDescriptor :=
  (readMethod text).mapError (DescriptorError.mk text)

end MethodDescriptor

namespace TypeDescriptor

/-- A whole text as a field descriptor. -/
def parse (text : Bytes) : Except DescriptorError TypeDescriptor :=
  (readType 0 text >>= atEnd text.length).mapError (DescriptorError.mk text)

end TypeDescriptor

/-- The number of parameters a method descriptor declares. -/
def paramCount (text : Bytes) : Except DescriptorError Nat :=
  (MethodDescriptor.parse text).map fun method => method.params.length

/-- Whether the last character of a descriptor, its return discriminator, is `V`. -/
def returnsVoid (text : Bytes) : Bool := text.getLast? == some 0x56

end ClassAudit
