import ClassAudit.ClassFile.Constant
import ClassAudit.Fault
import ClassAudit.Text.ModifiedUtf8

/-!
# Constant pools

A pool maps indices to constants. The slot after a wide constant exists and holds
nothing, so that indices agree with the file.
-/

set_option autoImplicit false

namespace ClassAudit

/-- A slot of a pool: a constant, or the second half of the wide constant before it. -/
inductive PoolSlot where
  | entry (constant : Constant)
  | upperHalf
  deriving DecidableEq, Repr

/-- The slots of a pool from index 1 on. -/
structure Pool where
  slots : List PoolSlot
  deriving DecidableEq, Repr

/-- A constant with its text decoded. -/
def Constant.interpreted : Constant → Constant
  | .utf8 body => .utf8 (decodeText body)
  | other => other

/-- The slots that a constant takes. -/
def Constant.poolSlots (constant : Constant) : List PoolSlot :=
  if constant.tag.wide then [.entry constant.interpreted, .upperHalf]
  else [.entry constant.interpreted]

/-- Why an index gave no constant of the wanted kind. -/
inductive LookupError where
  | outOfRange (index : PoolIndex) (count : Nat)
  | upperHalf (index : PoolIndex) (owner? : Option Tag)
  | wrongKind (index : PoolIndex) (found wanted : Tag)
  deriving DecidableEq, Repr

/-- The chain of a failed lookup. -/
def LookupError.toFault : LookupError → Fault
  | .outOfRange index count =>
      .classifiedBy .notFound
        ("index " ++ decimal index.toNat ++ " out of range for constant pool of " ++
          decimal count ++ " entries") (.cause .indexNotFound)
  | .upperHalf index owner? =>
      .classifiedBy .notFound
        ("index " ++ decimal index.toNat ++ " is the second slot of a " ++
          (owner?.map Tag.name).getD "Unknown(0)" ++ " constant") (.cause .indexNotFound)
  | .wrongKind index found wanted =>
      .classifiedBy .invalidFormat
        ("constant #" ++ decimal index.toNat ++ " is " ++ found.name ++ ", not " ++
          wanted.name) (.cause .wrongConstant)

/-- A member reference with its names resolved. -/
structure ResolvedMember where
  kind : MemberKind
  owner : Bytes
  name : Bytes
  descriptor : Bytes
  deriving DecidableEq, Repr

/-- The tag of a slot's constant. -/
def PoolSlot.tag? : PoolSlot → Option Tag
  | .entry constant => some constant.tag
  | .upperHalf => none

namespace Pool

/-- The pool of a sequence of constants under a declared count. A wide constant in the
last slot has no second half. -/
def ofConstants (count : UInt16) (constants : List Constant) : Pool :=
  ⟨(constants.flatMap Constant.poolSlots).take (count.toNat - 1)⟩

/-- The declared count: one more than the highest index. -/
def count (pool : Pool) : Nat := pool.slots.length + 1

/-- The constant at an index. Index 0, indices past the end and second halves have
none. -/
def entry (pool : Pool) (index : PoolIndex) : Except LookupError Constant :=
  if index = 0 then .error (.outOfRange index pool.count)
  else
    match pool.slots[index.toNat - 1]? with
    | none => .error (.outOfRange index pool.count)
    | some .upperHalf =>
        .error (.upperHalf index (pool.slots[index.toNat - 2]?.bind PoolSlot.tag?))
    | some (.entry constant) => .ok constant

/-- The text at an index. -/
def utf8 (pool : Pool) (index : PoolIndex) : Except LookupError Bytes := do
  match ← pool.entry index with
  | .utf8 text => return text
  | other => throw (.wrongKind index other.tag .utf8)

/-- The internal name of the class at an index. -/
def className (pool : Pool) (index : PoolIndex) : Except LookupError Bytes := do
  match ← pool.entry index with
  | .classRef name => pool.utf8 name
  | other => throw (.wrongKind index other.tag .classRef)

/-- The name and descriptor at an index. -/
def nameAndType (pool : Pool) (index : PoolIndex) : Except LookupError (Bytes × Bytes) := do
  match ← pool.entry index with
  | .nameAndType name descriptor =>
      let name ← pool.utf8 name
      let descriptor ← pool.utf8 descriptor
      return (name, descriptor)
  | other => throw (.wrongKind index other.tag .nameAndType)

/-- The member reference at an index, with its names. -/
def member (pool : Pool) (index : PoolIndex) : Except LookupError ResolvedMember := do
  match ← pool.entry index with
  | .member kind owner signature =>
      let owner ← pool.className owner
      let (name, descriptor) ← pool.nameAndType signature
      return ⟨kind, owner, name, descriptor⟩
  | other => throw (.wrongKind index other.tag .methodref)

/-- Every constant with its index, in index order. -/
def entries (pool : Pool) : List (PoolIndex × Constant) :=
  pool.slots.zipIdx.filterMap fun
    | (.entry constant, position) => some ((position + 1).toUInt16, constant)
    | (.upperHalf, _) => none

end Pool

end ClassAudit
