import ClassAudit.ClassFile.Basic
import ClassAudit.Json

/-!
# Method references

The method references in a class file's constant pool, and the graph of classes and
referenced methods that they span.
-/

set_option autoImplicit false

namespace ClassAudit

/-- A reference from a class to a method of its owner. -/
structure Reference where
  source : Bytes
  owner : Bytes
  name : Bytes
  descriptor : Bytes
  viaInterface : Bool
  deriving DecidableEq, Repr

/-- The graph node of the referenced method. -/
def Reference.target (reference : Reference) : Bytes :=
  reference.owner ++ "." ++ reference.name

/-- The JSON form of a reference. The interface mark is left out when false. -/
def Reference.toJson (reference : Reference) : Json :=
  .object
    ([Json.field "from" (.string reference.source), Json.field "owner" (.string reference.owner),
      Json.field "name" (.string reference.name),
      Json.field "descriptor" (.string reference.descriptor)] ++
      Json.fieldWhen reference.viaInterface "interface" (.bool true))

/-- Whether a constant is a method reference. -/
def Constant.isMethodReference (constant : Constant) : Bool :=
  constant.tag == .methodref || constant.tag == .interfaceMethodref

/-- The reference that a resolved member of the pool stands for. -/
def ResolvedMember.reference (source : Bytes) (member : ResolvedMember) : Reference :=
  ⟨source, member.owner, member.name, member.descriptor, member.kind == .interfaceMethod⟩

/-- The resolved method references of a class in index order, and how many did not
resolve. -/
def ClassFile.references (file : ClassFile) :
    Except LookupError (List Reference × Nat) := do
  let source ← file.name
  let found := (file.pool.entries.filter fun (_, constant) => constant.isMethodReference).map
    fun (index, _) => (file.pool.member index).map (ResolvedMember.reference source)
  return (found.filterMap Except.toOption,
    (found.filter fun outcome => outcome.toOption.isNone).length)

/-! ## Graph -/

/-- The first occurrence of each element, in order. -/
def firstOccurrences {α : Type} [DecidableEq α] (list : List α) : List α :=
  (list.foldl (fun kept item => if kept.contains item then kept else item :: kept) []).reverse

/-- A directed graph with named nodes. -/
structure ReferenceGraph where
  nodes : List Bytes
  edges : List (Bytes × Bytes)
  deriving DecidableEq, Repr

/-- The graph of classes and referenced methods, in order of first occurrence. -/
def ReferenceGraph.ofReferences (references : List Reference) : ReferenceGraph :=
  ⟨firstOccurrences
      (references.flatMap fun reference => [reference.source, reference.target]),
    firstOccurrences (references.map fun reference => (reference.source, reference.target))⟩

end ClassAudit
