import ClassAudit.Proofs.PoolAddressProperties
import ClassAudit.Proofs.ReferenceProperties

/-!
# Listed references

A method reference resolves through five constants: the reference, its class with its name, and its
signature with a name and a descriptor. The references of a decoded class are those of its constants
that do, in the order of the pool, and together with the number of the others they account for every
method reference of the pool.
-/

set_option autoImplicit false

namespace ClassAudit

/-! ## What an index resolves to -/

namespace Pool

variable (pool : Pool) (index : PoolIndex)

/-- A constant stands in the slot of an index. -/
def Holds (constant : Constant) : Prop :=
  1 ≤ index.toNat ∧ pool.slots[index.toNat - 1]? = some (.entry constant)

/-- A class constant stands at an index, and its name is a text of the pool. -/
def HoldsClass (name : Bytes) : Prop :=
  ∃ text, pool.Holds index (.classRef text) ∧ pool.Holds text (.utf8 name)

/-- A signature stands at an index, and both of its parts are texts of the pool. -/
def HoldsSignature (name descriptor : Bytes) : Prop :=
  ∃ nameIndex descriptorIndex, pool.Holds index (.nameAndType nameIndex descriptorIndex) ∧
    pool.Holds nameIndex (.utf8 name) ∧ pool.Holds descriptorIndex (.utf8 descriptor)

/-- A member reference stands at an index, and its class, name and descriptor are all there. -/
def HoldsMember (member : ResolvedMember) : Prop :=
  ∃ owner signature, pool.Holds index (.member member.kind owner signature) ∧
    pool.HoldsClass owner member.owner ∧
    pool.HoldsSignature signature member.name member.descriptor

variable {pool index}

theorem entry_eq_ok_iff_holds {constant : Constant} :
    pool.entry index = .ok constant ↔ pool.Holds index constant := by
  have positive : index ≠ 0 ↔ 1 ≤ index.toNat := by
    rw [Nat.one_le_iff_ne_zero, ne_eq, ne_eq, ← UInt16.toNat_inj]
    rfl
  rw [entry_eq_ok_iff, positive]
  rfl

theorem utf8_eq_ok_iff {text : Bytes} :
    pool.utf8 index = .ok text ↔ pool.Holds index (.utf8 text) := by
  rw [← entry_eq_ok_iff_holds, utf8]
  cases pool.entry index with
  | error reason => simp [bind, Except.bind]
  | ok constant =>
      cases constant <;> simp [bind, Except.bind, pure, Except.pure, throw, throwThe,
        MonadExceptOf.throw]

theorem className_eq_ok_iff {name : Bytes} :
    pool.className index = .ok name ↔ pool.HoldsClass index name := by
  simp only [HoldsClass, ← @entry_eq_ok_iff_holds pool index, ← utf8_eq_ok_iff, className]
  cases pool.entry index with
  | error reason => simp [bind, Except.bind]
  | ok constant =>
      cases constant <;> simp [bind, Except.bind, throw, throwThe, MonadExceptOf.throw]

theorem nameAndType_eq_ok_iff {name descriptor : Bytes} :
    pool.nameAndType index = .ok (name, descriptor) ↔
      pool.HoldsSignature index name descriptor := by
  simp only [HoldsSignature, ← @entry_eq_ok_iff_holds pool index, ← utf8_eq_ok_iff, nameAndType]
  cases pool.entry index with
  | error reason => simp [bind, Except.bind]
  | ok constant =>
      cases constant with
      | nameAndType nameIndex descriptorIndex =>
          constructor
          · intro found
            obtain ⟨_, same, found⟩ := bind_eq_ok found
            cases same
            obtain ⟨_, named, found⟩ := bind_eq_ok found
            obtain ⟨_, described, found⟩ := bind_eq_ok found
            cases found
            exact ⟨nameIndex, descriptorIndex, rfl, named, described⟩
          · intro found
            obtain ⟨_, _, same, named, described⟩ := found
            cases same
            simp only [bind, Except.bind, named, described]
            rfl
      | _ => simp [bind, Except.bind, throw, throwThe, MonadExceptOf.throw]

/-- A lookup of a member finds exactly what stands in the pool. -/
theorem member_eq_ok_iff {member : ResolvedMember} :
    pool.member index = .ok member ↔ pool.HoldsMember index member := by
  simp only [HoldsMember, ← @entry_eq_ok_iff_holds pool index, ← className_eq_ok_iff,
    ← nameAndType_eq_ok_iff, Pool.member]
  cases pool.entry index with
  | error reason => simp [bind, Except.bind]
  | ok constant =>
      cases constant with
      | member kind owner signature =>
          constructor
          · intro found
            obtain ⟨_, same, found⟩ := bind_eq_ok found
            cases same
            obtain ⟨_, owned, found⟩ := bind_eq_ok found
            obtain ⟨_, signed, found⟩ := bind_eq_ok found
            cases found
            exact ⟨owner, signature, rfl, owned, signed⟩
          · intro found
            obtain ⟨_, _, same, owned, signed⟩ := found
            cases same
            simp only [bind, Except.bind, owned, signed]
            rfl
      | _ => simp [bind, Except.bind, throw, throwThe, MonadExceptOf.throw]

end Pool

/-! ## References of a class -/

/-- Whether a slot holds a method reference. The second half of a wide constant holds none. -/
def PoolSlot.holdsMethodReference (slot : PoolSlot) : Bool :=
  slot.tag? == some .methodref || slot.tag? == some .interfaceMethodref

theorem length_filter_slotEntries (slots : List PoolSlot) (offset : Nat) :
    (((slots.zipIdx offset).filterMap slotEntry?).filter fun entry =>
      entry.2.isMethodReference).length = slots.countP PoolSlot.holdsMethodReference := by
  induction slots generalizing offset with
  | nil => rfl
  | cons slot slots ih =>
      cases slot with
      | upperHalf =>
          rw [List.countP_cons_of_neg (by decide), ← ih (offset + 1)]
          rfl
      | entry constant =>
          have shown : ((PoolSlot.entry constant :: slots).zipIdx offset).filterMap slotEntry? =
              ((offset + 1).toUInt16, constant) ::
                (slots.zipIdx (offset + 1)).filterMap slotEntry? := rfl
          have same : (PoolSlot.entry constant).holdsMethodReference =
              constant.isMethodReference := rfl
          rw [shown, List.filter_cons, List.countP_cons, same, ← ih (offset + 1)]
          cases constant.isMethodReference <;> rfl

/-- The references that a class lists: one for each index, in rising order, at which a method
reference resolves, and made of what the lookup at that index gives. -/
def ClassFile.ListsReferences (file : ClassFile) (source : Bytes) (references : List Reference) :
    Prop :=
  ∃ indices : List PoolIndex, indices.Pairwise (· < ·) ∧
    (∀ index, index ∈ indices ↔
      ∃ member, file.pool.HoldsMember index member ∧ member.kind ≠ .field) ∧
    List.Forall₂ (fun index reference => ∃ member, file.pool.member index = .ok member ∧
      reference = member.reference source) indices references

namespace Pool

/-- The method references of a pool that resolve, with their indices. -/
def resolvedMethods (pool : Pool) (source : Bytes) : List (PoolIndex × Constant) :=
  (pool.entries.filter fun entry => entry.2.isMethodReference).filter fun entry =>
    ((pool.member entry.1).map (ResolvedMember.reference source)).toOption.isSome

variable {pool : Pool} (small : pool.count < 65536) (source : Bytes)

include small

theorem resolvedMethods_increasing :
    ((pool.resolvedMethods source).map Prod.fst).Pairwise (· < ·) :=
  List.pairwise_map.mpr (((entries_increasing small).filter _).filter _)

theorem mem_resolvedMethods {index : PoolIndex} :
    index ∈ (pool.resolvedMethods source).map Prod.fst ↔
      ∃ member, pool.HoldsMember index member ∧ member.kind ≠ .field := by
  simp only [resolvedMethods, List.mem_map, List.mem_filter, isSome_toOption_iff, map_eq_ok_iff]
  constructor
  · intro listed
    obtain ⟨⟨_, constant⟩, ⟨⟨placed, method⟩, _, member, met, _⟩, rfl⟩ := listed
    have held := member_eq_ok_iff.mp met
    refine ⟨member, held, ?_⟩
    -- the entry at the index is the member reference that was resolved
    obtain ⟨owner, signature, reference, -⟩ := held
    have found := (mem_entries_iff small).mp placed
    rw [entry_eq_ok_iff_holds.mpr reference] at found
    cases found
    obtain ⟨_, _, _, same, apart⟩ := Constant.isMethodReference_iff.mp method
    cases same
    exact apart
  · intro resolved
    obtain ⟨member, held, method⟩ := resolved
    have met := member_eq_ok_iff.mpr held
    obtain ⟨owner, signature, reference, -⟩ := held
    refine ⟨(index, .member member.kind owner signature), ⟨⟨?_, ?_⟩, _, member, met, rfl⟩, rfl⟩
    · exact (mem_entries_iff small).mpr (entry_eq_ok_iff_holds.mpr reference)
    · exact Constant.isMethodReference_iff.mpr ⟨_, _, _, rfl, method⟩

end Pool

theorem ClassFile.references_listed {file : ClassFile} {source : Bytes}
    (small : file.pool.count < 65536) (named : file.name = .ok source) :
    ∃ references skipped, file.references = .ok (references, skipped) ∧
      file.ListsReferences source references ∧
      references.length + skipped = file.pool.slots.countP PoolSlot.holdsMethodReference := by
  refine ⟨_, _, file.references_of_named named, ?_, ?_⟩
  · refine ⟨(file.pool.resolvedMethods source).map Prod.fst,
      Pool.resolvedMethods_increasing small source,
      fun index => Pool.mem_resolvedMethods small source, ?_⟩
    rw [List.forall₂_map_left_iff]
    refine (forall₂_successes _ _).imp ?_
    intro entry reference met
    exact map_eq_ok_iff.mp met
  · rw [length_successes_add_failures, Pool.entries_eq_filterMap, length_filter_slotEntries]

theorem pool_count_of_decode {mode : DecodeMode} {data : Bytes} {file : ClassFile}
    (decoded : decode mode data = .ok file) : file.pool.count < 65536 := by
  obtain ⟨raw, after, read, rfl⟩ := read_of_decode decoded
  obtain ⟨fits, -, -⟩ := readClass_eq_ok read
  rw [(fits.interpret_shows after).poolCount]
  exact raw.poolCount.toNat_lt

/-- A decoded class lists its references exactly when its name resolves. The list loses and invents
nothing: it holds the method references that resolve, in the order of the pool, and the others are
counted. -/
theorem references_account_for_pool {mode : DecodeMode} {data : Bytes} {file : ClassFile}
    (decoded : decode mode data = .ok file) :
    (∀ index member, file.pool.member index = .ok member ↔ file.pool.HoldsMember index member) ∧
    ((∃ reason, file.references = .error reason) ↔
      ¬ ∃ source, file.pool.HoldsClass file.thisClass source) ∧
    ∀ source, file.pool.HoldsClass file.thisClass source →
      ∃ references skipped, file.references = .ok (references, skipped) ∧
        file.ListsReferences source references ∧
        references.length + skipped = file.pool.slots.countP PoolSlot.holdsMethodReference := by
  have small := pool_count_of_decode decoded
  have named : ∀ source, file.name = .ok source ↔ file.pool.HoldsClass file.thisClass source :=
    fun source => Pool.className_eq_ok_iff
  simp only [← named]
  refine ⟨fun index member => Pool.member_eq_ok_iff, ?_, fun source => file.references_listed small⟩
  cases met : file.name with
  | error reason =>
      rw [file.references_of_unnamed met]
      simp
  | ok source =>
      rw [file.references_of_named met]
      simp

/-- A class with a method reference and an interface method reference that resolve, a field
reference, and two method references that do not: one names the second half of a `long` as its
signature, the other a text as its class. -/
def mixedReferencesClass : RawClass :=
  { minor := 0, major := 52, poolCount := 15,
    constants := [.utf8 "app/A", .classRef 1, .utf8 "app/B", .classRef 3, .utf8 "run", .utf8 "()V",
      .nameAndType 5 6, .long 7, .member .interfaceMethod 4 7, .member .field 4 7,
      .member .method 4 9, .member .method 4 7, .member .method 5 7],
    access := 0x0021, thisClass := 2, superClass := 0, interfaces := [], fields := [],
    methods := [], attributes := [] }

theorem references_account_for_pool_mixed :
    ∃ file, decode .bestEffort mixedReferencesClass.encode = .ok file ∧
      file.references = .ok
        ([⟨"app/A", "app/B", "run", "()V", true⟩, ⟨"app/A", "app/B", "run", "()V", false⟩], 2) ∧
      file.ListsReferences "app/A"
        [⟨"app/A", "app/B", "run", "()V", true⟩, ⟨"app/A", "app/B", "run", "()V", false⟩] ∧
      file.pool.slots.countP PoolSlot.holdsMethodReference = 4 := by
  have decoded := decode_encode (by decide : mixedReferencesClass.Fits) []
  rw [List.append_nil] at decoded
  refine ⟨_, decoded, by decide, ?_, by decide⟩
  obtain ⟨-, -, listed⟩ := references_account_for_pool decoded
  obtain ⟨references, skipped, found, lists, -⟩ :=
    listed "app/A" ⟨1, by unfold Pool.Holds; decide, by unfold Pool.Holds; decide⟩
  have computed : (mixedReferencesClass.interpret
      ⟨mixedReferencesClass.encode.length, []⟩).references = .ok
        ([⟨"app/A", "app/B", "run", "()V", true⟩, ⟨"app/A", "app/B", "run", "()V", false⟩], 2) := by
    decide
  rw [computed] at found
  cases found
  exact lists

end ClassAudit
