import ClassAudit.Proofs.ReaderProperties

/-!
# Layout of class files

The readers of constants, members, attributes and whole classes are exact for their written
forms. A part fits when every length and count in it fits the word that announces it; what
does not fit has no written form that could be read back.
-/

set_option autoImplicit false

namespace ClassAudit

/-! ## Constants -/

/-- The length of a text fits its two bytes. -/
def Constant.Fits : Constant → Prop
  | .utf8 text => text.length < 0x10000
  | _ => True

instance (constant : Constant) : Decidable constant.Fits :=
  match constant with
  | .utf8 text => inferInstanceAs (Decidable (text.length < 0x10000))
  | .integer _ | .float _ | .long _ | .double _ | .classRef _ | .string _ | .member _ _ _
  | .nameAndType _ _ | .methodHandle _ _ | .methodType _ | .dynamic _ _ | .invokeDynamic _ _
  | .module _ | .package _ => inferInstanceAs (Decidable True)

theorem Constant.shape_of_tag (constant : Constant) :
    match constant.tag with
    | .utf8 => ∃ text, constant = .utf8 text
    | .integer => ∃ value, constant = .integer value
    | .float => ∃ bits, constant = .float bits
    | .long => ∃ value, constant = .long value
    | .double => ∃ bits, constant = .double bits
    | .classRef => ∃ name, constant = .classRef name
    | .string => ∃ text, constant = .string text
    | .fieldref => ∃ owner signature, constant = .member .field owner signature
    | .methodref => ∃ owner signature, constant = .member .method owner signature
    | .interfaceMethodref =>
        ∃ owner signature, constant = .member .interfaceMethod owner signature
    | .nameAndType => ∃ name descriptor, constant = .nameAndType name descriptor
    | .methodHandle => ∃ kind reference, constant = .methodHandle kind reference
    | .methodType => ∃ descriptor, constant = .methodType descriptor
    | .dynamic => ∃ bootstrap signature, constant = .dynamic bootstrap signature
    | .invokeDynamic => ∃ bootstrap signature, constant = .invokeDynamic bootstrap signature
    | .module => ∃ name, constant = .module name
    | .package => ∃ name, constant = .package name := by
  cases constant with
  | member kind owner signature => cases kind <;> exact ⟨owner, signature, rfl⟩
  | nameAndType | methodHandle | dynamic | invokeDynamic => exact ⟨_, _, rfl⟩
  | _ => exact ⟨_, rfl⟩

theorem Tag.ofByte?_byte (tag : Tag) : Tag.ofByte? tag.byte = some tag := by
  cases tag <;> rfl

theorem Tag.byte_of_ofByte? {byte : UInt8} {tag : Tag} (known : Tag.ofByte? byte = some tag) :
    tag.byte = byte := by
  unfold Tag.ofByte? at known
  split at known <;> cases known <;> rfl

theorem wordPair_exact :
    ReadsExactly AnyStreamError (fun pair => bytesOfU2 pair.1 ++ (bytesOfU2 pair.2 ++ []))
      (fun _ => True) Cursor.wordPair := by
  refine .field Prod.fst u2_exact (fun _ _ => trivial) fun _ first _ => ?_
  refine .field Prod.snd u2_exact (fun _ _ => trivial) fun _ second _ => ?_
  exact .done (by simp [Prod.ext_iff]) rfl

theorem byteAndWord_exact :
    ReadsExactly AnyStreamError (fun pair => [pair.1] ++ (bytesOfU2 pair.2 ++ []))
      (fun _ => True) Cursor.byteAndWord := by
  refine .field Prod.fst u1_exact (fun _ _ => trivial) fun _ byte _ => ?_
  refine .field Prod.snd u2_exact (fun _ _ => trivial) fun _ word _ => ?_
  exact .done (by simp [Prod.ext_iff]) rfl

private theorem taggedBody_exact {α : Type} {tag : Tag} {written : α → Bytes}
    {allowed : α → Prop} {reader : Cursor → Except StreamError (α × Cursor)}
    (make : α → Constant) (exact : ReadsExactly AnyStreamError written allowed reader)
    (tagged : ∀ value, (make value).tag = tag)
    (onto : ∀ constant : Constant, constant.tag = tag → ∃ value, constant = make value)
    (fits : ∀ value, (make value).Fits ↔ allowed value)
    (sameWritten : ∀ value, (make value).body = written value) :
    ReadsExactly AnyStreamError Constant.body
      (fun constant => constant.tag = tag ∧ constant.Fits)
      fun cursor => onValue make (reader cursor) := by
  have sequenced : ∀ cursor, onValue make (reader cursor) =
      reader cursor >>= fun read => .ok (make read.1, read.2) := by
    intro cursor
    cases reader cursor <;> rfl
  rw [funext sequenced]
  refine .andThen (fun _ => []) (fun constant value => constant = make value) exact ?_ ?_ ?_
  · intro constant given
    obtain ⟨kind, valid⟩ := given
    obtain ⟨value, rfl⟩ := onto constant kind
    exact ⟨value, (fits value).mp valid, rfl⟩
  · intro _ value _ _ same
    subst same
    rw [sameWritten, List.append_nil]
  · intro _ value valid
    change ReadsExactly _ _ _ fun next => .ok (make value, next)
    refine .done ?_ rfl
    intro other
    constructor
    · exact And.right
    · intro same
      subst same
      exact ⟨⟨tagged value, (fits value).mpr valid⟩, rfl⟩

theorem readConstantBody_exact (tag : Tag) :
    ReadsExactly AnyStreamError Constant.body
      (fun constant => constant.tag = tag ∧ constant.Fits) (readConstantBody tag) := by
  cases tag with
  | utf8 =>
      exact taggedBody_exact _ shortBlob_exact (fun _ => rfl)
        (fun constant kind => by simpa [kind] using constant.shape_of_tag)
        (fun _ => Iff.rfl) fun _ => rfl
  | integer =>
      refine taggedBody_exact _ u4_exact (fun _ => rfl) ?_ (fun _ => Iff.rfl) fun _ => rfl
      intro constant kind
      obtain ⟨value, rfl⟩ := by simpa [kind] using constant.shape_of_tag
      exact ⟨value.toUInt32, rfl⟩
  | long =>
      refine taggedBody_exact _ u8_exact (fun _ => rfl) ?_ (fun _ => Iff.rfl) fun _ => rfl
      intro constant kind
      obtain ⟨value, rfl⟩ := by simpa [kind] using constant.shape_of_tag
      exact ⟨value.toUInt64, rfl⟩
  | float =>
      exact taggedBody_exact _ u4_exact (fun _ => rfl)
        (fun constant kind => by simpa [kind] using constant.shape_of_tag)
        (fun _ => Iff.rfl) fun _ => rfl
  | double =>
      exact taggedBody_exact _ u8_exact (fun _ => rfl)
        (fun constant kind => by simpa [kind] using constant.shape_of_tag)
        (fun _ => Iff.rfl) fun _ => rfl
  | classRef | string | methodType | module | package =>
      exact taggedBody_exact _ u2_exact (fun _ => rfl)
        (fun constant kind => by simpa [kind] using constant.shape_of_tag)
        (fun _ => Iff.rfl) fun _ => rfl
  | fieldref | methodref | interfaceMethodref | nameAndType | dynamic | invokeDynamic =>
      exact taggedBody_exact _ wordPair_exact (fun _ => rfl)
        (fun constant kind => by simpa [kind] using constant.shape_of_tag)
        (fun _ => Iff.rfl) fun _ => rfl
  | methodHandle =>
      exact taggedBody_exact _ byteAndWord_exact (fun _ => rfl)
        (fun constant kind => by simpa [kind] using constant.shape_of_tag)
        (fun _ => Iff.rfl) fun _ => rfl

theorem readConstant_exact (slot : Nat) :
    ReadsExactly DecodeError.IsTruncation Constant.encode Constant.Fits (readConstant slot) := by
  refine .andThen Constant.body (fun constant byte => constant.tag.byte = byte)
    (forPlace_exact (.constantTag slot) Cursor.position u1_exact) ?_ ?_ ?_
  · intro constant _
    exact ⟨_, trivial, rfl⟩
  · intro constant _ _ _ same
    subst same
    rfl
  · intro cursor byte _
    cases known : Tag.ofByte? byte with
    | none =>
        simp only [known]
        refine .refused ?_
        intro constant given
        obtain ⟨-, rfl⟩ := given
        rw [Tag.ofByte?_byte] at known
        cases known
    | some tag =>
        simp only [known]
        refine (forPlace_exact (.constant slot tag) (fun _ => cursor.position)
          (readConstantBody_exact tag)).congr ?_ fun _ _ => rfl
        intro constant
        constructor
        · intro given
          obtain ⟨fits, rfl⟩ := given
          rw [Tag.ofByte?_byte] at known
          exact ⟨Option.some.inj known, fits⟩
        · intro given
          obtain ⟨rfl, fits⟩ := given
          exact ⟨fits, Tag.byte_of_ofByte? known⟩

/-! ## Slots -/

/-- The constants of a sequence with the slots at which they start. -/
def placedFrom : Nat → List Constant → List (Nat × Constant)
  | _, [] => []
  | slot, constant :: constants =>
      (slot, constant) :: placedFrom (slot + constant.slots) constants

@[simp] theorem slotAfter_nil (slot : Nat) : slotAfter slot [] = slot := rfl

@[simp] theorem slotAfter_cons (slot : Nat) (constant : Constant) (constants : List Constant) :
    slotAfter slot (constant :: constants) = slotAfter (slot + constant.slots) constants := rfl

theorem slotAfter_append (slot : Nat) (before after : List Constant) :
    slotAfter slot (before ++ after) = slotAfter (slotAfter slot before) after :=
  List.foldl_append

theorem placedFrom_append (slot : Nat) (before after : List Constant) :
    placedFrom slot (before ++ after) =
      placedFrom slot before ++ placedFrom (slotAfter slot before) after := by
  induction before generalizing slot with
  | nil => rfl
  | cons constant before ih => simp [placedFrom, ih]

/-- A sequence fills the slots below a count: every constant starts below it, and none is
missing. -/
def FillsSlots (count slot : Nat) (constants : List Constant) : Prop :=
  (∀ entry ∈ placedFrom slot constants, entry.1 < count) ∧ count ≤ slotAfter slot constants

theorem fillsSlots_nil {count slot : Nat} : FillsSlots count slot [] ↔ count ≤ slot := by
  simp [FillsSlots, placedFrom]

theorem fillsSlots_cons {count slot : Nat} {constant : Constant} {constants : List Constant} :
    FillsSlots count slot (constant :: constants) ↔
      slot < count ∧ FillsSlots count (slot + constant.slots) constants := by
  simp [FillsSlots, placedFrom, and_assoc]

theorem readConstants_exact (count slot : Nat) (read : List Constant) :
    ReadsExactly DecodeError.IsTruncation (encodeUnread Constant.encode read)
      (Continues read fun more => FillsSlots count slot more ∧ ∀ constant ∈ more, constant.Fits)
      (readConstants count slot read) := by
  -- every constant takes a slot, so fewer of them are free at the next turn
  generalize measure : count - slot = remaining
  induction remaining using Nat.strongRecOn generalizing slot read with
  | ind remaining ih =>
      rw [funext (readConstants.eq_1 count slot read)]
      by_cases free : slot < count
      · simp only [free, ↓reduceIte]
        refine .step (readConstant_exact slot) ?_ ?_ ?_
        · intro given
          obtain ⟨fills, -⟩ := given
          exact absurd free (Nat.not_lt.mpr (fillsSlots_nil.mp fills))
        · intro constant rest isAccepted
          exact isAccepted.2 constant List.mem_cons_self
        · intro _ constant fits
          have wide := constant.slots_pos
          refine (ih (count - (slot + constant.slots)) (by omega) (slot + constant.slots)
            (constant :: read) rfl).congr ?_ fun _ _ => rfl
          simp [Continues, fillsSlots_cons, free, fits]
      · simp only [free, ↓reduceIte]
        refine .stop ?_
        intro more
        cases more with
        | nil => simp [fillsSlots_nil, Nat.le_of_not_lt free]
        | cons constant more => simp [fillsSlots_cons, free]

/-- From the first slot on, a filled pool ends at its count, or one slot behind it when the
last constant is wide. -/
theorem fillsSlots_iff_ends {count slot : Nat} {constants : List Constant}
    (starts : slot ≤ count) :
    FillsSlots count slot constants ↔
      (∀ entry ∈ placedFrom slot constants, entry.1 < count) ∧
        (slotAfter slot constants = count ∨ slotAfter slot constants = count + 1 ∧
          ∃ last ∈ constants.getLast?, last.tag.wide = true) := by
  refine and_congr_right fun below => ?_
  constructor
  · intro reached
    rcases List.eq_nil_or_concat constants with rfl | ⟨before, last, rfl⟩
    · exact .inl (Nat.le_antisymm starts reached)
    · have lastBelow : slotAfter slot before < count :=
        below (slotAfter slot before, last) (by simp [placedFrom_append, placedFrom])
      have ended : slotAfter slot (before ++ [last]) = slotAfter slot before + last.slots := by
        simp [slotAfter_append]
      simp only [List.concat_eq_append] at reached ⊢
      rw [ended] at reached ⊢
      by_cases wide : last.tag.wide = true
      · simp only [Constant.slots, wide, ↓reduceIte] at reached ⊢
        simp only [List.getLast?_append, List.getLast?_singleton, Option.some_or,
          Option.mem_some_iff, exists_eq_left', wide, and_true]
        omega
      · simp only [Constant.slots, wide, Bool.false_eq_true, ↓reduceIte] at reached ⊢
        exact .inl (by omega)
  · intro given
    rcases given with ended | ⟨ended, -⟩ <;> omega

theorem readPool_exact (count : Nat) :
    ReadsExactly DecodeError.IsTruncation (fun constants => constants.flatMap Constant.encode)
      (fun constants => FillsSlots count 1 constants ∧ ∀ constant ∈ constants, constant.Fits)
      (readConstants count 1 []) :=
  (readConstants_exact count 1 []).congr (by simp [Continues]) fun _ _ => rfl

/-! ## Attributes and members -/

/-- The length of the body fits its four bytes. -/
def Attribute.Fits (item : Attribute) : Prop := item.body.length < 0x100000000

/-- A table with a count that fits its two bytes, and items that fit. -/
def TableFits {α : Type} (fits : α → Prop) (items : List α) : Prop :=
  items.length < 0x10000 ∧ ∀ item ∈ items, fits item

def Member.Fits (member : Member) : Prop := TableFits Attribute.Fits member.attributes

instance (item : Attribute) : Decidable item.Fits :=
  inferInstanceAs (Decidable (item.body.length < 0x100000000))

instance {α : Type} (fits : α → Prop) [DecidablePred fits] (items : List α) :
    Decidable (TableFits fits items) :=
  inferInstanceAs (Decidable (items.length < 0x10000 ∧ ∀ item ∈ items, fits item))

instance (member : Member) : Decidable member.Fits :=
  inferInstanceAs (Decidable (TableFits Attribute.Fits member.attributes))

theorem readAttribute_exact (owner : AttributeOwner) (index : Nat) :
    ReadsExactly DecodeError.IsTruncation Attribute.encode Attribute.Fits
      (readAttribute owner index) := by
  have chained : ReadsExactly DecodeError.IsTruncation
      (fun item : Attribute => bytesOfU2 item.name ++
        ((bytesOfU4 item.body.length.toUInt32 ++ item.body) ++ []))
      Attribute.Fits (readAttribute owner index) := by
    refine .field Attribute.name (forPlace_exact (.attribute owner index) Cursor.position u2_exact)
      (fun _ _ => trivial) fun cursor name _ => ?_
    refine .field Attribute.body
      (forPlace_exact (.attribute owner index) (fun _ => cursor.position) blob_exact)
      (fun _ valid => valid.1) fun _ body bodyFits => ?_
    refine .done ?_ rfl
    intro item
    constructor
    · intro given
      obtain ⟨⟨-, rfl⟩, rfl⟩ := given
      rfl
    · intro same
      subst same
      exact ⟨⟨bodyFits, rfl⟩, rfl⟩
  exact chained.congr (fun _ => Iff.rfl) fun item _ => by simp [Attribute.encode]

theorem readAttributes_exact (owner : AttributeOwner) :
    ReadsExactly DecodeError.IsTruncation (encodeTable Attribute.encode)
      (TableFits Attribute.Fits) (readAttributes owner) :=
  readTable_exact (.attributesCount owner) (readAttribute_exact owner)

theorem wordTriple_exact :
    ReadsExactly AnyStreamError
      (fun words => bytesOfU2 words.1 ++ bytesOfU2 words.2.1 ++ bytesOfU2 words.2.2)
      (fun _ => True) Cursor.wordTriple := by
  refine word_exact (fun bytes => ((bigEndian ((bytes.drop 0).take 2)).toUInt16,
    (bigEndian ((bytes.drop 2).take 2)).toUInt16, (bigEndian ((bytes.drop 4).take 2)).toUInt16))
    (fun _ => rfl) ?_ ?_
  · intro words
    exact Prod.ext (toUInt16_bigEndian words.1)
      (Prod.ext (toUInt16_bigEndian words.2.1) (toUInt16_bigEndian words.2.2))
  · intro bytes full
    rw [bytesOfU2_bigEndian (by simp [full]), bytesOfU2_bigEndian (by simp [full]),
      bytesOfU2_bigEndian (by simp [full]), List.drop_zero, ← List.take_add, ← List.take_add]
    exact List.take_of_length_le (by omega)

theorem readField_exact (index : Nat) :
    ReadsExactly DecodeError.IsTruncation Member.encode Member.Fits (readField index) := by
  have chained : ReadsExactly DecodeError.IsTruncation
      (fun member : Member =>
        (bytesOfU2 member.access ++ bytesOfU2 member.name ++ bytesOfU2 member.descriptor) ++
          (encodeTable Attribute.encode member.attributes ++ []))
      Member.Fits (readField index) := by
    refine .field (fun member : Member => (member.access, member.name, member.descriptor))
      (forPlace_exact (.field index) Cursor.position wordTriple_exact) (fun _ _ => trivial)
      fun _ words _ => ?_
    refine .field Member.attributes (readAttributes_exact (.field index))
      (fun _ valid => valid.1) fun _ attributes attributesFit => ?_
    refine .done ?_ rfl
    intro member
    constructor
    · intro given
      obtain ⟨⟨-, rfl⟩, rfl⟩ := given
      rfl
    · intro same
      subst same
      exact ⟨⟨attributesFit, rfl⟩, rfl⟩
  exact chained.congr (fun _ => Iff.rfl) fun member _ => by simp [Member.encode]

theorem readMethodEntry_exact (index : Nat) :
    ReadsExactly DecodeError.IsTruncation Member.encode Member.Fits (readMethodEntry index) := by
  have chained : ReadsExactly DecodeError.IsTruncation
      (fun member : Member => bytesOfU2 member.access ++ (bytesOfU2 member.name ++
        (bytesOfU2 member.descriptor ++ (encodeTable Attribute.encode member.attributes ++ []))))
      Member.Fits (readMethodEntry index) := by
    refine .field Member.access (readWord_exact (.methodAccess index)) (fun _ _ => trivial)
      fun _ access _ => ?_
    refine .field Member.name (readWord_exact (.methodName index)) (fun _ _ => trivial)
      fun _ name _ => ?_
    refine .field Member.descriptor (readWord_exact (.methodDescriptor index))
      (fun _ _ => trivial) fun _ descriptor _ => ?_
    refine .field Member.attributes (readAttributes_exact (.method index))
      (fun _ valid => valid.1.1.1) fun _ attributes attributesFit => ?_
    refine .done ?_ rfl
    intro member
    constructor
    · intro given
      obtain ⟨⟨⟨⟨-, rfl⟩, rfl⟩, rfl⟩, rfl⟩ := given
      rfl
    · intro same
      subst same
      exact ⟨⟨⟨⟨attributesFit, rfl⟩, rfl⟩, rfl⟩, rfl⟩
  exact chained.congr (fun _ => Iff.rfl) fun member _ => by simp [Member.encode]

/-! ## Classes -/

/-- The layout of a class: the constants fill the declared pool from slot 1 on, where only a
wide constant may reach one slot behind it, and every length and count fits its word. -/
structure RawClass.Fits (raw : RawClass) : Prop where
  poolDeclared : 1 ≤ raw.poolCount.toNat
  starts : ∀ entry ∈ placedFrom 1 raw.constants, entry.1 < raw.poolCount.toNat
  ends : slotAfter 1 raw.constants = raw.poolCount.toNat ∨
    slotAfter 1 raw.constants = raw.poolCount.toNat + 1 ∧
      ∃ last ∈ raw.constants.getLast?, last.tag.wide = true
  constants : ∀ constant ∈ raw.constants, constant.Fits
  interfaces : raw.interfaces.length < 0x10000
  fields : TableFits Member.Fits raw.fields
  methods : TableFits Member.Fits raw.methods
  attributes : TableFits Attribute.Fits raw.attributes

instance (raw : RawClass) : Decidable raw.Fits :=
  decidable_of_iff
    (1 ≤ raw.poolCount.toNat ∧
      (∀ entry ∈ placedFrom 1 raw.constants, entry.1 < raw.poolCount.toNat) ∧
      (slotAfter 1 raw.constants = raw.poolCount.toNat ∨
        slotAfter 1 raw.constants = raw.poolCount.toNat + 1 ∧
          ∃ last ∈ raw.constants.getLast?, last.tag.wide = true) ∧
      (∀ constant ∈ raw.constants, constant.Fits) ∧ raw.interfaces.length < 0x10000 ∧
      TableFits Member.Fits raw.fields ∧ TableFits Member.Fits raw.methods ∧
      TableFits Attribute.Fits raw.attributes)
    ⟨fun ⟨declared, starts, ends, constants, interfaces, fields, methods, attributes⟩ =>
      ⟨declared, starts, ends, constants, interfaces, fields, methods, attributes⟩,
    fun ⟨declared, starts, ends, constants, interfaces, fields, methods, attributes⟩ =>
      ⟨declared, starts, ends, constants, interfaces, fields, methods, attributes⟩⟩

theorem RawClass.Fits.fillsSlots {raw : RawClass} (fits : raw.Fits) :
    FillsSlots raw.poolCount.toNat 1 raw.constants :=
  (fillsSlots_iff_ends fits.poolDeclared).mpr ⟨fits.starts, fits.ends⟩

def encodeHeader (minor major poolCount : UInt16) : Bytes :=
  bytesOfU4 classMagic ++ bytesOfU2 minor ++ bytesOfU2 major ++ bytesOfU2 poolCount

@[simp] theorem length_encodeHeader (minor major poolCount : UInt16) :
    (encodeHeader minor major poolCount).length = headerSize := rfl

def RawClass.encodeParts (raw : RawClass) : Bytes :=
  raw.constants.flatMap Constant.encode ++ (bytesOfU2 raw.access ++
    (bytesOfU2 raw.thisClass ++ (bytesOfU2 raw.superClass ++
      (encodeTable bytesOfU2 raw.interfaces ++ (encodeTable Member.encode raw.fields ++
        (encodeTable Member.encode raw.methods ++
          (encodeTable Attribute.encode raw.attributes ++ [])))))))

theorem RawClass.encode_eq_header_append (raw : RawClass) :
    raw.encode = encodeHeader raw.minor raw.major raw.poolCount ++ raw.encodeParts := by
  simp [RawClass.encode, RawClass.encodeBeforeMethods, RawClass.encodeParts, encodeHeader,
    encodeTable]

theorem readHeader_encode {minor major poolCount : UInt16} (declared : 1 ≤ poolCount.toNat)
    (rest : Bytes) :
    readHeader (encodeHeader minor major poolCount ++ rest) =
      .ok ((minor, major, poolCount), ⟨headerSize, rest⟩) := by
  have split : Bytes.split? headerSize (encodeHeader minor major poolCount ++ rest) =
      some (encodeHeader minor major poolCount, rest) :=
    Bytes.split?_eq_some_iff.mpr ⟨rfl, rfl⟩
  have magic : (bigEndian ((encodeHeader minor major poolCount).take 4)).toUInt32 = classMagic :=
    toUInt32_bigEndian classMagic
  have minorRead : (bigEndian (((encodeHeader minor major poolCount).drop 4).take 2)).toUInt16 =
    minor := toUInt16_bigEndian minor
  have majorRead : (bigEndian (((encodeHeader minor major poolCount).drop 6).take 2)).toUInt16 =
    major := toUInt16_bigEndian major
  have countRead : (bigEndian (((encodeHeader minor major poolCount).drop 8).take 2)).toUInt16 =
    poolCount := toUInt16_bigEndian poolCount
  have nonzero : poolCount ≠ 0 := by
    intro same
    subst same
    exact absurd declared (by decide)
  simp only [readHeader, split, magic, minorRead, majorRead, countRead, nonzero, ne_eq,
    not_true_eq_false, ↓reduceIte]

theorem readHeader_eq_ok {data : Bytes} {minor major poolCount : UInt16} {next : Cursor}
    (read : readHeader data = .ok ((minor, major, poolCount), next)) :
    1 ≤ poolCount.toNat ∧ data = encodeHeader minor major poolCount ++ next.rest ∧
      next.position = headerSize := by
  simp only [readHeader] at read
  split at read
  · cases read
  · rename_i header rest found
    obtain ⟨full, shape⟩ := Bytes.split?_eq_some_iff.mp found
    have full : header.length = 10 := full
    split at read
    · cases read
    · rename_i magic
      split at read
      · cases read
      · rename_i nonzero
        cases read
        refine ⟨?_, ?_, rfl⟩
        · exact Nat.one_le_iff_ne_zero.mpr fun zero => nonzero (UInt16.toNat_inj.mp zero)
        · have magicWritten : bytesOfU4 classMagic = header.take 4 := by
            rw [← Classical.not_not.mp magic]
            exact bytesOfU4_bigEndian (by simp [full])
          rw [shape, encodeHeader, magicWritten, bytesOfU2_bigEndian (by simp [full]),
            bytesOfU2_bigEndian (by simp [full]), bytesOfU2_bigEndian (by simp [full]),
            ← List.take_add, ← List.take_add, ← List.take_add,
            List.take_of_length_le (Nat.le_of_eq full)]

theorem readHeader_short {data : Bytes} (short : data.length < headerSize) :
    readHeader data = .error (.shortHeader data.length) := by
  simp only [readHeader, Bytes.split?_eq_none_iff.mpr short]

theorem readParts_exact {minor major poolCount : UInt16} (declared : 1 ≤ poolCount.toNat) :
    ReadsExactly DecodeError.IsTruncation RawClass.encodeParts
      (fun raw => raw.Fits ∧ raw.minor = minor ∧ raw.major = major ∧ raw.poolCount = poolCount)
      (readParts minor major poolCount) := by
  refine .field RawClass.constants (readPool_exact poolCount.toNat) ?_
    fun _ constants ⟨fills, constantsFit⟩ => ?_
  · intro raw valid
    obtain ⟨fits, -, -, rfl⟩ := valid
    exact ⟨fits.fillsSlots, fits.constants⟩
  refine .field RawClass.access (readWord_exact .accessFlags) (fun _ _ => trivial)
    fun _ access _ => ?_
  refine .field RawClass.thisClass (readWord_exact .thisClass) (fun _ _ => trivial)
    fun _ thisClass _ => ?_
  refine .field RawClass.superClass (readWord_exact .superClass) (fun _ _ => trivial)
    fun _ superClass _ => ?_
  refine .field RawClass.interfaces
    (readTable_exact .interfacesCount fun _ => readWord_exact .interfaceIndex)
    (fun _ valid => ⟨valid.1.1.1.1.1.interfaces, fun _ _ => trivial⟩)
    fun _ interfaces interfacesFit => ?_
  refine .field RawClass.fields (readTable_exact .fieldsCount readField_exact)
    (fun _ valid => valid.1.1.1.1.1.1.fields) fun _ fields fieldsFit => ?_
  refine .field RawClass.methods (readTable_exact .methodsCount readMethodEntry_exact)
    (fun _ valid => valid.1.1.1.1.1.1.1.methods) fun _ methods methodsFit => ?_
  refine .field RawClass.attributes (readAttributes_exact .wholeClass)
    (fun _ valid => valid.1.1.1.1.1.1.1.1.attributes) fun _ attributes attributesFit => ?_
  refine .done ?_ rfl
  intro raw
  constructor
  · intro given
    obtain ⟨⟨⟨⟨⟨⟨⟨⟨⟨-, rfl, rfl, rfl⟩, rfl⟩, rfl⟩, rfl⟩, rfl⟩, rfl⟩, rfl⟩, rfl⟩, rfl⟩ := given
    rfl
  · intro same
    subst same
    obtain ⟨starts, ends⟩ := (fillsSlots_iff_ends declared).mp fills
    have fits : RawClass.Fits ⟨minor, major, poolCount, constants, access, thisClass, superClass,
        interfaces, fields, methods, attributes⟩ :=
      ⟨declared, starts, ends, constantsFit, interfacesFit.1, fieldsFit, methodsFit, attributesFit⟩
    exact ⟨⟨⟨⟨⟨⟨⟨⟨⟨fits, rfl, rfl, rfl⟩, rfl⟩, rfl⟩, rfl⟩, rfl⟩, rfl⟩, rfl⟩, rfl⟩, rfl⟩

theorem readClass_encode {raw : RawClass} (fits : raw.Fits) (rest : Bytes) :
    readClass (raw.encode ++ rest) = .ok (raw, ⟨raw.encode.length, rest⟩) := by
  have parts := (readParts_exact fits.poolDeclared).accepts ⟨fits, rfl, rfl, rfl⟩ headerSize rest
  rw [RawClass.encode_eq_header_append, List.append_assoc, List.length_append,
    length_encodeHeader]
  simp only [readClass, readHeader_encode fits.poolDeclared, bind, Except.bind]
  exact parts

/-- Only written classes are read, and a reading takes exactly the written form. -/
theorem readClass_eq_ok {data : Bytes} {raw : RawClass} {next : Cursor}
    (read : readClass data = .ok (raw, next)) :
    raw.Fits ∧ data = raw.encode ++ next.rest ∧ next.position = raw.encode.length := by
  obtain ⟨⟨⟨minor, major, poolCount⟩, middle⟩, header, parts⟩ := bind_eq_ok read
  obtain ⟨declared, headerShape, headerMoved⟩ := readHeader_eq_ok header
  obtain ⟨⟨fits, rfl, rfl, rfl⟩, partsShape, partsMoved⟩ :=
    (readParts_exact declared).consumes parts
  refine ⟨fits, ?_, ?_⟩
  · rw [headerShape, partsShape, RawClass.encode_eq_header_append, List.append_assoc]
  · rw [partsMoved, headerMoved, RawClass.encode_eq_header_append, List.length_append,
      length_encodeHeader]

/-- Every proper prefix of a written class is refused: as a short header, or for missing
data behind the header. -/
theorem readClass_take {raw : RawClass} (fits : raw.Fits) {count : Nat}
    (short : count < raw.encode.length) :
    ∃ error, readClass (raw.encode.take count) = .error error ∧
      (count < headerSize → error = .shortHeader count) ∧
      (headerSize ≤ count → error.IsTruncation) := by
  by_cases inHeader : count < headerSize
  · have size : (raw.encode.take count).length = count :=
      List.length_take_of_le (Nat.le_of_lt short)
    refine ⟨.shortHeader count, ?_, fun _ => rfl, fun behind => absurd inHeader ?_⟩
    · rw [readClass, readHeader_short (size.symm ▸ inHeader), size]
      rfl
    · exact Nat.not_lt.mpr behind
  · have cut : raw.encode.take count = encodeHeader raw.minor raw.major raw.poolCount ++
        raw.encodeParts.take (count - headerSize) := by
      rw [RawClass.encode_eq_header_append, List.take_append, length_encodeHeader,
        List.take_of_length_le (Nat.le_of_not_lt inHeader)]
    rw [RawClass.encode_eq_header_append, List.length_append, length_encodeHeader] at short
    obtain ⟨error, failed, truncated⟩ := (readParts_exact fits.poolDeclared).starves
      ⟨fits, rfl, rfl, rfl⟩ headerSize (count - headerSize) (by omega)
    refine ⟨error, ?_, fun ahead => absurd ahead inHeader, fun _ => truncated⟩
    rw [cut, readClass, readHeader_encode fits.poolDeclared]
    exact failed

theorem RawClass.encode_append_injective {left right : RawClass} {leftRest rightRest : Bytes}
    (leftFits : left.Fits) (rightFits : right.Fits)
    (same : left.encode ++ leftRest = right.encode ++ rightRest) :
    left = right ∧ leftRest = rightRest := by
  have read := readClass_encode leftFits leftRest
  rw [same, readClass_encode rightFits rightRest] at read
  cases read
  exact ⟨rfl, rfl⟩

end ClassAudit
