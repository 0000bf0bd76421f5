import ClassAudit.Fault

/-!
# Byte streams

A cursor stands in a byte string and reads big-endian words, chunks and
length-prefixed blobs. A read takes all its bytes or none, with one exception: a blob
whose declared length overruns the data has taken its four length bytes.
-/

set_option autoImplicit false

namespace ClassAudit

/-- A position in a byte string, with the bytes from there to the end. -/
structure Cursor where
  position : Nat
  rest : Bytes
  deriving DecidableEq, Repr

/-- Why a read failed. -/
inductive StreamError where
  | endOfData
  | overrun (declared offset left : Nat)
  deriving DecidableEq, Repr

/-- The chain of a failed read. -/
def StreamError.toFault : StreamError → Fault
  | .endOfData => .cause .streamEnd
  | .overrun declared offset left =>
      .detailed (.cause .streamOverrun)
        (.plain (decimal declared ++ " bytes declared at offset " ++ decimal offset ++
          ", " ++ decimal left ++ " left"))

namespace Cursor

/-- The cursor before the first byte. -/
def start (data : Bytes) : Cursor := ⟨0, data⟩

/-- How many bytes are left. -/
def remaining (cursor : Cursor) : Nat := cursor.rest.length

/-- The next `count` bytes. -/
def take (count : Nat) (cursor : Cursor) : Except StreamError (Bytes × Cursor) :=
  match cursor.rest.split? count with
  | some (taken, rest) => .ok (taken, ⟨cursor.position + count, rest⟩)
  | none => .error .endOfData

/-- The next byte. -/
def u1 (cursor : Cursor) : Except StreamError (UInt8 × Cursor) := do
  let (taken, next) ← cursor.take 1
  return ((bigEndian taken).toUInt8, next)

/-- The next two bytes as a word. -/
def u2 (cursor : Cursor) : Except StreamError (UInt16 × Cursor) := do
  let (taken, next) ← cursor.take 2
  return ((bigEndian taken).toUInt16, next)

/-- The next four bytes as a word. -/
def u4 (cursor : Cursor) : Except StreamError (UInt32 × Cursor) := do
  let (taken, next) ← cursor.take 4
  return ((bigEndian taken).toUInt32, next)

/-- The next eight bytes as a word. -/
def u8 (cursor : Cursor) : Except StreamError (UInt64 × Cursor) := do
  let (taken, next) ← cursor.take 8
  return ((bigEndian taken).toUInt64, next)

/-- The next `count` bytes, for a count that may be negative and then fails. -/
def takeSigned (count : Int) (cursor : Cursor) : Except StreamError (Bytes × Cursor) :=
  if count < 0 then .error .endOfData else cursor.take count.toNat

/-- A four-byte length and that many bytes, together with the cursor after the attempt. -/
def blobAttempt (cursor : Cursor) : Except StreamError Bytes × Cursor :=
  match cursor.u4 with
  | .error error => (.error error, cursor)
  | .ok (length, afterLength) =>
      match afterLength.take length.toNat with
      | .ok (body, next) => (.ok body, next)
      | .error _ =>
          (.error (.overrun length.toNat cursor.position afterLength.remaining), afterLength)

/-- A four-byte length and that many bytes. -/
def blob (cursor : Cursor) : Except StreamError (Bytes × Cursor) :=
  match cursor.blobAttempt with
  | (.ok body, next) => .ok (body, next)
  | (.error error, _) => .error error

end Cursor

/-! ## Single steps -/

/-- A request to a stream. -/
inductive StreamStep where
  | u1
  | u2
  | u4
  | u8
  | bytes (count : Int)
  | skip (count : Int)
  | blob
  deriving DecidableEq, Repr

/-- What a successful step returns. Skips and blobs return nothing. -/
inductive StreamItem where
  | u1 (word : UInt8)
  | u2 (word : UInt16)
  | u4 (word : UInt32)
  | u8 (word : UInt64)
  | bytes (chunk : Bytes)
  | nothing
  deriving DecidableEq, Repr

/-- The result of a read together with the cursor it leaves: the next one, or the old
one on failure. -/
def settle {α : Type} (cursor : Cursor) (item : α → StreamItem) :
    Except StreamError (α × Cursor) → Except StreamError StreamItem × Cursor
  | .ok (value, next) => (.ok (item value), next)
  | .error error => (.error error, cursor)

/-- Runs one step. A failing step leaves a cursor from which the next step goes on. -/
def StreamStep.run (cursor : Cursor) : StreamStep → Except StreamError StreamItem × Cursor
  | .u1 => settle cursor .u1 cursor.u1
  | .u2 => settle cursor .u2 cursor.u2
  | .u4 => settle cursor .u4 cursor.u4
  | .u8 => settle cursor .u8 cursor.u8
  | .bytes count => settle cursor .bytes (cursor.takeSigned count)
  | .skip count => settle cursor (fun _ => .nothing) (cursor.takeSigned count)
  | .blob =>
      let (result, next) := cursor.blobAttempt
      (result.map fun _ => .nothing, next)

/-- Runs steps in order, each from the cursor that the step before left. -/
def runSteps (cursor : Cursor) :
    List StreamStep → List (Except StreamError StreamItem × Cursor)
  | [] => []
  | step :: steps =>
      let outcome := step.run cursor
      outcome :: runSteps outcome.2 steps

end ClassAudit
