import ClassAudit.ClassFile.Assembly
import ClassAudit.Proofs.PoolProperties
import ClassAudit.Proofs.TextProperties

/-!
# Properties of the pool under assembly

A pool under assembly only grows, so an index keeps the constant it was given for. The
tables of texts and classes agree with the pool at every moment, and each text is there
once.
-/

set_option autoImplicit false

namespace ClassAudit

/-! ## What an index denotes -/

/-- An index denotes what a step asked for, when indices lead to constants as `holds`
says. -/
inductive Denotes (holds : PoolIndex → Constant → Prop) : PoolIndex → AssemblyStep → Prop
  | text {index : PoolIndex} {value : Bytes} (entry : holds index (.utf8 value)) :
      Denotes holds index (.text value)
  | className {index text : PoolIndex} {name : Bytes} (entry : holds index (.classRef text))
      (named : Denotes holds text (.text name)) : Denotes holds index (.className name)
  | integer {index : PoolIndex} {value : Int32} (entry : holds index (.integer value)) :
      Denotes holds index (.integer value)
  | long {index : PoolIndex} {value : Int64} (entry : holds index (.long value)) :
      Denotes holds index (.long value)
  | double {index : PoolIndex} {bits : UInt64} (entry : holds index (.double bits)) :
      Denotes holds index (.double bits)
  | string {index text : PoolIndex} {value : Bytes} (entry : holds index (.string text))
      (valued : Denotes holds text (.text value)) : Denotes holds index (.string value)
  | nameAndType {index nameIndex descriptorIndex : PoolIndex} {name descriptor : Bytes}
      (entry : holds index (.nameAndType nameIndex descriptorIndex))
      (named : Denotes holds nameIndex (.text name))
      (described : Denotes holds descriptorIndex (.text descriptor)) :
      Denotes holds index (.nameAndType name descriptor)
  | member {index ownerIndex signature : PoolIndex} {kind : MemberKind}
      {owner name descriptor : Bytes} (entry : holds index (.member kind ownerIndex signature))
      (owned : Denotes holds ownerIndex (.className owner))
      (signed : Denotes holds signature (.nameAndType name descriptor)) :
      Denotes holds index (.member kind owner name descriptor)

theorem Denotes.mono {holds kept : PoolIndex → Constant → Prop}
    (keeps : ∀ index constant, holds index constant → kept index constant)
    {index : PoolIndex} {step : AssemblyStep} (denotes : Denotes holds index step) :
    Denotes kept index step := by
  induction denotes with
  | text entry => exact .text (keeps _ _ entry)
  | className entry _ named => exact .className (keeps _ _ entry) named
  | integer entry => exact .integer (keeps _ _ entry)
  | long entry => exact .long (keeps _ _ entry)
  | double entry => exact .double (keeps _ _ entry)
  | string entry _ valued => exact .string (keeps _ _ entry) valued
  | nameAndType entry _ _ named described =>
      exact .nameAndType (keeps _ _ entry) named described
  | member entry _ _ owned signed => exact .member (keeps _ _ entry) owned signed

/-! ## Constants of an assembly -/

def PoolItem.constant? : PoolItem → Option Constant
  | .constant value => some value
  | .raw _ _ => none

namespace Assembly

def constants (assembly : Assembly) : List Constant := assembly.pool.filterMap PoolItem.constant?

/-- An index was given to a constant. Indices wrap, slots do not. -/
def Holds (assembly : Assembly) (index : PoolIndex) (constant : Constant) : Prop :=
  ∃ slot, (slot, constant) ∈ placedFrom 1 assembly.constants ∧ index = slot.toUInt16

theorem holds_of_grown {before after : Assembly}
    (grown : before.constants <+: after.constants) (index : PoolIndex) (constant : Constant)
    (held : before.Holds index constant) : after.Holds index constant := by
  obtain ⟨slot, placed, given⟩ := held
  obtain ⟨added, extended⟩ := grown
  refine ⟨slot, ?_, given⟩
  rw [← extended, placedFrom_append]
  exact List.mem_append_left _ placed

theorem holds_concat {before after : Assembly} {added : Constant}
    (extended : after.constants = before.constants ++ [added]) (index : PoolIndex)
    (constant : Constant) :
    after.Holds index constant ↔ before.Holds index constant ∨
      constant = added ∧ index = (slotAfter 1 before.constants).toUInt16 := by
  simp only [Holds, extended, placedFrom_append, placedFrom, List.mem_append,
    List.mem_singleton, Prod.mk.injEq]
  constructor
  · intro held
    obtain ⟨slot, placed, given⟩ := held
    rcases placed with earlier | ⟨rfl, rfl⟩
    · exact .inl ⟨slot, earlier, given⟩
    · exact .inr ⟨rfl, given⟩
  · intro held
    rcases held with ⟨slot, earlier, given⟩ | ⟨rfl, given⟩
    · exact ⟨slot, .inl earlier, given⟩
    · exact ⟨_, .inr ⟨rfl, rfl⟩, given⟩

end Assembly

/-- A text that a text constant can hold and that is read as it stands. -/
def TextFits (text : Bytes) : Prop := text.length ≤ 65535 ∧ isUtf8 text = true

instance (text : Bytes) : Decidable (TextFits text) := inferInstanceAs (Decidable (_ ∧ _))

namespace Assembly

/-- The tables of an assembly agree with its pool. -/
structure Sound (assembly : Assembly) : Prop where
  constants : assembly.pool = assembly.constants.map PoolItem.constant
  next : assembly.next = (slotAfter 1 assembly.constants).toUInt16
  textsFit : ∀ text, .utf8 text ∈ assembly.constants → TextFits text
  texts : ∀ value index,
    assembly.texts.lookup value = some index ↔ assembly.Holds index (.utf8 value)
  classes : ∀ name index,
    assembly.classes.lookup name = some index → Denotes assembly.Holds index (.className name)

/-- Everything of an assembly but its pool. -/
def withoutPool (assembly : Assembly) : Assembly :=
  { assembly with pool := [], next := 0, texts := [], classes := [] }

/-- A pool operation leads from one assembly to another: the pool grows, and nothing but
the pool changes. -/
structure Adds (before after : Assembly) : Prop where
  sound : after.Sound
  grown : before.constants <+: after.constants
  frame : after.withoutPool = before.withoutPool

theorem Adds.refl {assembly : Assembly} (sound : assembly.Sound) : assembly.Adds assembly :=
  ⟨sound, List.prefix_refl _, rfl⟩

theorem Adds.trans {first second third : Assembly} (earlier : first.Adds second)
    (later : second.Adds third) : first.Adds third :=
  ⟨later.sound, earlier.grown.trans later.grown, later.frame.trans earlier.frame⟩

theorem Adds.denotes {before after : Assembly} (adds : before.Adds after) {index : PoolIndex}
    {step : AssemblyStep} (denotes : Denotes before.Holds index step) :
    Denotes after.Holds index step :=
  denotes.mono (holds_of_grown adds.grown)

end Assembly

namespace Assembling

open Assembly

variable {assembly : Assembly}

theorem constants_addConstant (assembly : Assembly) (constant : Constant) :
    (addConstant constant assembly).2.constants = assembly.constants ++ [constant] := by
  simp [addConstant, add, Assembly.constants, PoolItem.constant?]

theorem holds_addConstant (sound : assembly.Sound) (constant : Constant) :
    (addConstant constant assembly).2.Holds (addConstant constant assembly).1 constant :=
  (holds_concat (constants_addConstant assembly constant) _ _).2 (.inr ⟨rfl, sound.next⟩)

theorem pool_addConstant (sound : assembly.Sound) (constant : Constant) :
    (addConstant constant assembly).2.pool =
      (addConstant constant assembly).2.constants.map PoolItem.constant := by
  rw [constants_addConstant, List.map_append, ← sound.constants]
  rfl

theorem next_addConstant (sound : assembly.Sound) (constant : Constant) :
    (addConstant constant assembly).2.next =
      (slotAfter 1 (addConstant constant assembly).2.constants).toUInt16 := by
  rw [constants_addConstant, slotAfter_append, slotAfter_cons, slotAfter_nil]
  change assembly.next + constant.slots.toUInt16 = _
  rw [sound.next]
  simp

theorem grown_addConstant (assembly : Assembly) (constant : Constant) :
    assembly.constants <+: (addConstant constant assembly).2.constants :=
  ⟨[constant], (constants_addConstant assembly constant).symm⟩

/-- A constant that is no text leaves both tables true. -/
theorem addConstant_adds (sound : assembly.Sound) (constant : Constant)
    (notText : ∀ text, constant ≠ .utf8 text) :
    assembly.Adds (addConstant constant assembly).2 where
  sound :=
    { constants := pool_addConstant sound constant
      next := next_addConstant sound constant
      textsFit := by
        intro text member
        rw [constants_addConstant, List.mem_append, List.mem_singleton] at member
        rcases member with earlier | new
        · exact sound.textsFit text earlier
        · exact absurd new.symm (notText text)
      texts := by
        intro value index
        rw [holds_concat (constants_addConstant assembly constant)]
        constructor
        · intro found
          exact .inl ((sound.texts value index).1 found)
        · intro held
          rcases held with earlier | ⟨new, -⟩
          · exact (sound.texts value index).2 earlier
          · exact absurd new.symm (notText value)
      classes := by
        intro name index found
        exact (sound.classes name index found).mono
          (holds_of_grown (grown_addConstant assembly constant)) }
  grown := grown_addConstant assembly constant
  frame := rfl

theorem get_bind_apply {α : Type} (next : Assembly → Assembling α) (assembly : Assembly) :
    (get >>= next) assembly = next assembly assembly := rfl

theorem text_of_found {value : Bytes} {index : PoolIndex}
    (found : assembly.texts.lookup value = some index) :
    text value assembly = (index, assembly) := by
  unfold text
  rw [get_bind_apply, found]
  rfl

theorem text_of_missing {value : Bytes} (missing : assembly.texts.lookup value = none) :
    text value assembly =
      ((addConstant (.utf8 value) assembly).1,
        { (addConstant (.utf8 value) assembly).2 with
          texts := (value, (addConstant (.utf8 value) assembly).1) :: assembly.texts }) := by
  unfold text
  rw [get_bind_apply, missing]
  rfl

theorem text_adds (sound : assembly.Sound) {value : Bytes} (fits : TextFits value) :
    assembly.Adds (text value assembly).2 ∧
      Denotes (text value assembly).2.Holds (text value assembly).1 (.text value) := by
  cases looked : assembly.texts.lookup value with
  | some index =>
      rw [text_of_found looked]
      exact ⟨.refl sound, .text ((sound.texts value index).1 looked)⟩
  | none =>
      rw [text_of_missing looked]
      have held := holds_concat (constants_addConstant assembly (.utf8 value))
      refine ⟨⟨⟨pool_addConstant sound _, next_addConstant sound _, ?_, ?_, ?_⟩,
        grown_addConstant _ _, rfl⟩, .text (holds_addConstant sound _)⟩
      · intro text member
        rcases List.mem_append.1 (constants_addConstant _ _ ▸ member) with earlier | new
        · exact sound.textsFit text earlier
        · obtain rfl : text = value := by simpa using new
          exact fits
      · intro other index
        refine Iff.trans ?_ (held index (.utf8 other)).symm
        rw [List.lookup_cons]
        by_cases same : other = value
        · subst same
          -- no index had the text, so the new one is its only index
          have unused : ¬ assembly.Holds index (.utf8 other) := by
            rw [← sound.texts, looked]
            simp
          simp only [BEq.rfl, unused, false_or, true_and, Option.some.injEq]
          change assembly.next = index ↔ _
          rw [sound.next, eq_comm]
        · have different : (other == value) = false := by simpa using same
          simp only [different, sound.texts, Constant.utf8.injEq, same, false_and, or_false]
      · intro name index found
        exact (sound.classes name index found).mono (holds_of_grown (grown_addConstant _ _))

theorem className_of_found {name : Bytes} {index : PoolIndex}
    (found : assembly.classes.lookup name = some index) :
    className name assembly = (index, assembly) := by
  unfold className
  rw [get_bind_apply, found]
  rfl

/-- A class constant behind the text of its name. -/
def classEntry (name : Bytes) : Assembling PoolIndex := do
  addConstant (.classRef (← text name))

theorem className_of_missing {name : Bytes} (missing : assembly.classes.lookup name = none) :
    className name assembly =
      ((classEntry name assembly).1,
        { (classEntry name assembly).2 with
          classes := (name, (classEntry name assembly).1) ::
            (classEntry name assembly).2.classes }) := by
  unfold className
  rw [get_bind_apply, missing]
  rfl

theorem classEntry_adds (sound : assembly.Sound) {name : Bytes} (fits : TextFits name) :
    assembly.Adds (classEntry name assembly).2 ∧
      Denotes (classEntry name assembly).2.Holds (classEntry name assembly).1
        (.className name) := by
  obtain ⟨named, denotesName⟩ := text_adds sound fits
  have added := addConstant_adds named.sound (.classRef (text name assembly).1) (by simp)
  have held := holds_addConstant named.sound (.classRef (text name assembly).1)
  exact ⟨named.trans added, .className held (added.denotes denotesName)⟩

theorem className_adds (sound : assembly.Sound) {name : Bytes} (fits : TextFits name) :
    assembly.Adds (className name assembly).2 ∧
      Denotes (className name assembly).2.Holds (className name assembly).1
        (.className name) := by
  cases looked : assembly.classes.lookup name with
  | some index =>
      rw [className_of_found looked]
      exact ⟨.refl sound, sound.classes name index looked⟩
  | none =>
      obtain ⟨added, denotes⟩ := classEntry_adds sound fits
      rw [className_of_missing looked]
      refine ⟨⟨⟨added.sound.constants, added.sound.next, added.sound.textsFit,
        added.sound.texts, ?_⟩, added.grown, added.frame⟩, denotes⟩
      intro other index found
      rw [List.lookup_cons] at found
      by_cases same : other = name
      · subst same
        obtain rfl : (classEntry other assembly).1 = index := by simpa using found
        exact denotes
      · have different : (other == name) = false := by simpa using same
        exact added.sound.classes other index (by simpa [different] using found)

theorem string_adds (sound : assembly.Sound) {value : Bytes} (fits : TextFits value) :
    assembly.Adds (string value assembly).2 ∧
      Denotes (string value assembly).2.Holds (string value assembly).1 (.string value) := by
  obtain ⟨valued, denotesValue⟩ := text_adds sound fits
  have added := addConstant_adds valued.sound (.string (text value assembly).1) (by simp)
  have held := holds_addConstant valued.sound (.string (text value assembly).1)
  exact ⟨valued.trans added, .string held (added.denotes denotesValue)⟩

theorem nameAndType_adds (sound : assembly.Sound) {name descriptor : Bytes}
    (nameFits : TextFits name) (descriptorFits : TextFits descriptor) :
    assembly.Adds (nameAndType name descriptor assembly).2 ∧
      Denotes (nameAndType name descriptor assembly).2.Holds
        (nameAndType name descriptor assembly).1 (.nameAndType name descriptor) := by
  obtain ⟨named, denotesName⟩ := text_adds sound nameFits
  obtain ⟨described, denotesDescriptor⟩ := text_adds named.sound descriptorFits
  have added := addConstant_adds described.sound (.nameAndType (text name assembly).1
    (text descriptor (text name assembly).2).1) (by simp)
  have held := holds_addConstant described.sound (.nameAndType (text name assembly).1
    (text descriptor (text name assembly).2).1)
  exact ⟨(named.trans described).trans added, .nameAndType held
    (added.denotes (described.denotes denotesName)) (added.denotes denotesDescriptor)⟩

theorem member_adds (sound : assembly.Sound) (kind : MemberKind)
    {owner name descriptor : Bytes} (ownerFits : TextFits owner) (nameFits : TextFits name)
    (descriptorFits : TextFits descriptor) :
    assembly.Adds (member kind owner name descriptor assembly).2 ∧
      Denotes (member kind owner name descriptor assembly).2.Holds
        (member kind owner name descriptor assembly).1 (.member kind owner name descriptor) := by
  obtain ⟨owned, denotesOwner⟩ := className_adds sound ownerFits
  obtain ⟨signed, denotesSignature⟩ := nameAndType_adds owned.sound nameFits descriptorFits
  have added := addConstant_adds signed.sound (.member kind (className owner assembly).1
    (nameAndType name descriptor (className owner assembly).2).1) (by simp)
  have held := holds_addConstant signed.sound (.member kind (className owner assembly).1
    (nameAndType name descriptor (className owner assembly).2).1)
  exact ⟨(owned.trans signed).trans added, .member held
    (added.denotes (signed.denotes denotesOwner)) (added.denotes denotesSignature)⟩

end Assembling

/-! ## The written pool -/

/-- What a pool answers at an index, for the steps that return one. -/
def Pool.Answers (pool : Pool) (index : PoolIndex) : AssemblyStep → Prop
  | .text value => pool.utf8 index = .ok value
  | .className name => pool.className index = .ok name
  | .integer value => pool.entry index = .ok (.integer value)
  | .long value => pool.entry index = .ok (.long value)
  | .double bits => pool.entry index = .ok (.double bits)
  | .string value => ∃ text, pool.entry index = .ok (.string text) ∧ pool.utf8 text = .ok value
  | .nameAndType name descriptor => pool.nameAndType index = .ok (name, descriptor)
  | .member kind owner name descriptor =>
      pool.member index = .ok ⟨kind, owner, name, descriptor⟩
  | _ => False

theorem Denotes.answers {pool : Pool} {index : PoolIndex} {step : AssemblyStep}
    (denotes : Denotes (fun index constant => pool.entry index = .ok constant) index step) :
    pool.Answers index step := by
  induction denotes with
  | text entry => simp [Pool.Answers, Pool.utf8, entry, bind, Except.bind, pure, Except.pure]
  | className entry _ named =>
      simpa [Pool.Answers, Pool.className, entry, bind, Except.bind] using named
  | integer entry => exact entry
  | long entry => exact entry
  | double entry => exact entry
  | string entry _ valued => exact ⟨_, entry, valued⟩
  | nameAndType entry _ _ named described =>
      simp only [Pool.Answers] at named described
      simp [Pool.Answers, Pool.nameAndType, entry, named, described, bind, Except.bind, pure,
        Except.pure]
  | member entry _ _ owned signed =>
      simp only [Pool.Answers] at owned signed
      simp [Pool.Answers, Pool.member, entry, owned, signed, bind, Except.bind, pure,
        Except.pure]

namespace Assembly

def slotsTaken (assembly : Assembly) : Nat :=
  assembly.pool.foldl (fun taken item => taken + item.slots) 0

theorem Sound.slotAfter_constants {assembly : Assembly} (sound : assembly.Sound) :
    slotAfter 1 assembly.constants = assembly.slotsTaken + 1 := by
  have taken : assembly.slotsTaken = slotAfter 0 assembly.constants := by
    rw [slotsTaken, sound.constants, List.foldl_map]
    rfl
  rw [taken, slotAfter_eq_add_length, slotAfter_eq_add_length, Nat.zero_add, Nat.add_comm]

theorem Sound.toNat_next {assembly : Assembly} (sound : assembly.Sound)
    (bounded : assembly.slotsTaken ≤ 65534) :
    assembly.next.toNat = slotAfter 1 assembly.constants := by
  rw [sound.next, sound.slotAfter_constants]
  exact UInt16.toNat_ofNat_of_lt (Nat.lt_of_le_of_lt (Nat.succ_le_succ bounded) (by decide))

end Assembly

theorem lt_slotAfter_of_placed {slot : Nat} {constant : Constant} {constants : List Constant}
    (placed : (slot, constant) ∈ placedFrom 1 constants) :
    1 ≤ slot ∧ slot < slotAfter 1 constants := by
  obtain ⟨before, after, rfl, rfl⟩ := exists_split_of_mem_placedFrom placed
  have positive := constant.slots_pos
  rw [slotAfter_append, slotAfter_cons, slotAfter_eq_add_length _ after,
    slotAfter_eq_add_length 1 before]
  omega

theorem mem_of_placed {start slot : Nat} {constant : Constant} {constants : List Constant}
    (placed : (slot, constant) ∈ placedFrom start constants) : constant ∈ constants := by
  obtain ⟨before, after, rfl, -⟩ := exists_split_of_mem_placedFrom placed
  simp

namespace Assembly

theorem Sound.interpreted {assembly : Assembly} (sound : assembly.Sound) {constant : Constant}
    (member : constant ∈ assembly.constants) : constant.interpreted = constant := by
  cases constant with
  | utf8 text =>
      rw [Constant.interpreted, decodeText_of_isUtf8 (sound.textsFit text member).2]
  | _ => rfl

/-- Within the bound of an index, an index leads to the constant it was given for. -/
theorem Sound.entry_of_holds {assembly : Assembly} (sound : assembly.Sound)
    (bounded : assembly.slotsTaken ≤ 65534) (index : PoolIndex) (constant : Constant)
    (held : assembly.Holds index constant) :
    (Pool.ofConstants assembly.next assembly.constants).entry index = .ok constant := by
  obtain ⟨slot, placed, rfl⟩ := held
  have below : slot < assembly.next.toNat := by
    rw [sound.toNat_next bounded]
    exact (lt_slotAfter_of_placed placed).2
  rw [Pool.entry_of_placed below placed, sound.interpreted (mem_of_placed placed)]

theorem Sound.index_ne_zero {assembly : Assembly} (sound : assembly.Sound)
    (bounded : assembly.slotsTaken ≤ 65534) {index : PoolIndex} {constant : Constant}
    (held : assembly.Holds index constant) : index ≠ 0 := by
  intro zero
  have found := sound.entry_of_holds bounded index constant held
  simp [zero, Pool.entry] at found

theorem Sound.index_eq_of_text {assembly : Assembly} (sound : assembly.Sound)
    {first second : PoolIndex} {value : Bytes} (firstHeld : assembly.Holds first (.utf8 value))
    (secondHeld : assembly.Holds second (.utf8 value)) : first = second := by
  have firstFound := (sound.texts value first).2 firstHeld
  have secondFound := (sound.texts value second).2 secondHeld
  exact Option.some.inj (firstFound.symm.trans secondFound)

end Assembly

end ClassAudit
