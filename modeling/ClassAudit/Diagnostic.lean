import ClassAudit.Bytes

/-!
# Diagnostics

Findings that do not stop a decode. Each names the file offset of the structure
concerned and, where there is one, its method.
-/

set_option autoImplicit false

namespace ClassAudit

/-- What a diagnostic is about. -/
inductive DiagnosticKind where
  | trailing
  | descriptor
  | version
  | unresolved
  | custom (name : Bytes)
  deriving DecidableEq, Repr

/-- The name of a diagnostic kind. -/
def DiagnosticKind.name : DiagnosticKind → Bytes
  | .trailing => "trailing"
  | .descriptor => "descriptor"
  | .version => "version"
  | .unresolved => "unresolved"
  | .custom name => name

/-- A finding at a file offset, for the whole class or for one method of its table. -/
structure Diagnostic where
  kind : DiagnosticKind
  offset : Int
  method? : Option Int
  message : Bytes
  deriving DecidableEq, Repr

/-- An offset in hexadecimal, four characters wide with the sign counted. -/
def offsetText (offset : Int) : Bytes :=
  if offset < 0 then 0x2D :: hexPadded 3 offset.natAbs else hexPadded 4 offset.natAbs

/-- The one-line text of a diagnostic. -/
def Diagnostic.text (diagnostic : Diagnostic) : Bytes :=
  let method :=
    match diagnostic.method? with
    | none => []
    | some index => Bytes.ofString " method #" ++ signedDecimal index
  diagnostic.kind.name ++ " @0x" ++ offsetText diagnostic.offset ++ method ++ ": " ++
    diagnostic.message

end ClassAudit
