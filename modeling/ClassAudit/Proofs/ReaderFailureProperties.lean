import ClassAudit.Proofs.LayoutProperties

/-!
# Failures of readers

A reader that runs out of data fails whatever stood in it. Its other failures are tied to the
data: to a tag of no known kind, or to an attribute that is longer than what is left. Like exact
readings, they are settled part by part.
-/

set_option autoImplicit false

namespace ClassAudit

/-! ## Reads that only run out of data -/

/-- A stream read that fails only where the data ends. -/
def EndsOnly {α : Type} (reader : Cursor → Except StreamError (α × Cursor)) : Prop :=
  ∀ cursor reason, reader cursor = .error reason → reason = .endOfData

theorem take_eq_error_iff {count : Nat} {cursor : Cursor} {reason : StreamError} :
    cursor.take count = .error reason ↔ cursor.rest.length < count ∧ reason = .endOfData := by
  rw [Cursor.take, ← Bytes.split?_eq_none_iff]
  cases cursor.rest.split? count with
  | none => simp [eq_comm]
  | some found => simp

namespace EndsOnly

variable {α β : Type}

theorem take (count : Nat) : EndsOnly (Cursor.take count) :=
  fun _ _ failed => (take_eq_error_iff.mp failed).2

theorem done (value : α) : EndsOnly fun cursor => .ok (value, cursor) :=
  fun _ _ failed => nomatch failed

theorem andThen {first : Cursor → Except StreamError (α × Cursor)}
    {second : Cursor → α × Cursor → Except StreamError (β × Cursor)}
    (firstEnds : EndsOnly first)
    (secondEnds : ∀ cursor value, EndsOnly fun next => second cursor (value, next)) :
    EndsOnly fun cursor => first cursor >>= second cursor := by
  intro cursor reason failed
  rcases bind_eq_error_iff.mp failed with failed | ⟨⟨value, next⟩, -, failed⟩
  · exact firstEnds cursor reason failed
  · exact secondEnds cursor value next reason failed

theorem onValue {make : α → β} {reader : Cursor → Except StreamError (α × Cursor)}
    (ends : EndsOnly reader) : EndsOnly fun cursor => onValue make (reader cursor) := by
  intro cursor reason failed
  cases inner : reader cursor with
  | ok found =>
      simp only [inner] at failed
      cases failed
  | error other =>
      simp only [inner] at failed
      cases failed
      exact ends cursor reason inner

theorem u1 : EndsOnly Cursor.u1 := (take 1).andThen fun _ _ => done _

theorem u2 : EndsOnly Cursor.u2 := (take 2).andThen fun _ _ => done _

theorem u4 : EndsOnly Cursor.u4 := (take 4).andThen fun _ _ => done _

theorem u8 : EndsOnly Cursor.u8 := (take 8).andThen fun _ _ => done _

theorem wordPair : EndsOnly Cursor.wordPair :=
  u2.andThen fun _ _ => u2.andThen fun _ _ => done _

theorem byteAndWord : EndsOnly Cursor.byteAndWord :=
  u1.andThen fun _ _ => u2.andThen fun _ _ => done _

theorem wordTriple : EndsOnly Cursor.wordTriple := (take 6).andThen fun _ _ => done _

theorem shortBlob : EndsOnly Cursor.shortBlob := u2.andThen fun _ length => take length.toNat

theorem readConstantBody (tag : Tag) : EndsOnly (readConstantBody tag) := by
  cases tag with
  | utf8 => exact shortBlob.onValue
  | integer | float => exact u4.onValue
  | long | double => exact u8.onValue
  | classRef | string | methodType | module | package => exact u2.onValue
  | fieldref | methodref | interfaceMethodref | nameAndType | dynamic | invokeDynamic =>
      exact wordPair.onValue
  | methodHandle => exact byteAndWord.onValue

end EndsOnly

/-- The only other failure of a stream read: the length of a blob exceeds what is left. -/
theorem blob_eq_error_iff {cursor : Cursor} {reason : StreamError}
    (overrun : reason ≠ .endOfData) :
    cursor.blob = .error reason ↔
      ∃ length rest, cursor.rest = bytesOfU4 length ++ rest ∧ rest.length < length.toNat ∧
        reason = .overrun length.toNat cursor.position rest.length := by
  rw [blob_eq_bind, bind_eq_error_iff]
  constructor
  · rintro (failed | ⟨⟨length, next⟩, read, failed⟩)
    · exact absurd (EndsOnly.u4 _ _ failed) overrun
    · obtain ⟨-, shape, -⟩ := u4_exact.consumes read
      cases body : next.take length.toNat with
      | ok found =>
          simp only [body] at failed
          cases failed
      | error other =>
          simp only [body] at failed
          cases failed
          exact ⟨length, next.rest, shape, (take_eq_error_iff.mp body).1, rfl⟩
  · rintro ⟨length, rest, shape, short, rfl⟩
    obtain ⟨position, bytes⟩ := cursor
    cases shape
    refine .inr ⟨_, u4_exact.accepts trivial position rest, ?_⟩
    have body : Cursor.take length.toNat ⟨position + (bytesOfU4 length).length, rest⟩ =
        .error .endOfData := take_eq_error_iff.mpr ⟨short, rfl⟩
    simp only [body]
    rfl

/-! ## Readers and their failures -/

/-- One cursor stands behind another, with these bytes between them. -/
def Cursor.Passes (cursor : Cursor) (passed : Bytes) (next : Cursor) : Prop :=
  cursor.rest = passed ++ next.rest ∧ next.position = cursor.position + passed.length

theorem Cursor.passes_nil_iff {cursor next : Cursor} : cursor.Passes [] next ↔ next = cursor := by
  obtain ⟨position, rest⟩ := cursor
  obtain ⟨nextPosition, nextRest⟩ := next
  simp [Cursor.Passes, eq_comm, and_comm]

theorem Cursor.passes_append_iff {cursor next : Cursor} {first second : Bytes} :
    cursor.Passes (first ++ second) next ↔
      ∃ middle, cursor.Passes first middle ∧ middle.Passes second next := by
  constructor
  · rintro ⟨shape, moved⟩
    refine ⟨⟨cursor.position + first.length, second ++ next.rest⟩, ⟨?_, rfl⟩, rfl, ?_⟩
    · rw [shape, List.append_assoc]
    · rw [moved, List.length_append, Nat.add_assoc]
  · rintro ⟨middle, ⟨firstShape, firstMoved⟩, secondShape, secondMoved⟩
    constructor
    · rw [firstShape, secondShape, List.append_assoc]
    · rw [secondMoved, firstMoved, List.length_append, Nat.add_assoc]

theorem ReadsExactly.eq_ok_iff {ε α : Type} {starved : ε → Prop} {written : α → Bytes}
    {allowed : α → Prop} {reader : Cursor → Except ε (α × Cursor)}
    (exact : ReadsExactly starved written allowed reader) {cursor next : Cursor} {value : α} :
    reader cursor = .ok (value, next) ↔ allowed value ∧ cursor.Passes (written value) next := by
  constructor
  · exact exact.consumes
  · rintro ⟨valid, shape, moved⟩
    obtain ⟨position, rest⟩ := cursor
    obtain ⟨nextPosition, nextRest⟩ := next
    simp only at shape moved
    subst shape moved
    exact exact.accepts valid position nextRest

/-- The error of a read that met the end of the data. -/
def DecodeError.IsStarvation (error : DecodeError) : Prop :=
  ∃ place offset, error = .truncated place offset .endOfData

/-- The failures of a reader other than missing data, in terms of the data. -/
def BlamesExactly {α : Type} (reader : LayoutReader α)
    (blamed : Cursor → DecodeError → Prop) : Prop :=
  ∀ cursor error, ¬ error.IsStarvation → (reader cursor = .error error ↔ blamed cursor error)

namespace BlamesExactly

variable {α β : Type} {blamed : Cursor → DecodeError → Prop}

theorem congr {blamed' : Cursor → DecodeError → Prop} {reader : LayoutReader α}
    (blames : BlamesExactly reader blamed)
    (same : ∀ cursor error, blamed' cursor error ↔ blamed cursor error) :
    BlamesExactly reader blamed' :=
  fun cursor error fed => (blames cursor error fed).trans (same cursor error).symm

theorem done (value : α) : BlamesExactly (fun cursor => .ok (value, cursor)) fun _ _ => False :=
  fun _ _ _ => ⟨nofun, False.elim⟩

/-- A stream read that only runs out of data is blamed for nothing else. -/
theorem starving {reader : Cursor → Except StreamError (α × Cursor)} (ends : EndsOnly reader)
    (place : Place) (offset : Cursor → Nat) :
    BlamesExactly (fun cursor => forPlace place (offset cursor) (reader cursor))
      fun _ _ => False := by
  intro cursor error fed
  refine ⟨fun failed => fed ?_, False.elim⟩
  cases read : reader cursor with
  | ok found =>
      simp only [read] at failed
      cases failed
  | error reason =>
      simp only [read] at failed
      cases failed
      exact ⟨place, offset cursor, by rw [ends cursor reason read]⟩

/-- Two reads in a row fail in the first, or in the second behind what the first has taken. -/
theorem andThen {starved : DecodeError → Prop} {written : α → Bytes} {allowed : α → Prop}
    {first : LayoutReader α} {second : Cursor → α × Cursor → Except DecodeError (β × Cursor)}
    {later : Cursor → α → Cursor → DecodeError → Prop}
    (firstExact : ReadsExactly starved written allowed first)
    (firstBlames : BlamesExactly first blamed)
    (secondBlames : ∀ cursor value, BlamesExactly (fun next => second cursor (value, next))
      (later cursor value)) :
    BlamesExactly (fun cursor => first cursor >>= second cursor) fun cursor error =>
      blamed cursor error ∨ ∃ value next, allowed value ∧ cursor.Passes (written value) next ∧
        later cursor value next error := by
  intro cursor error fed
  rw [bind_eq_error_iff, firstBlames cursor error fed]
  refine or_congr_right ?_
  constructor
  · rintro ⟨⟨value, next⟩, read, failed⟩
    obtain ⟨valid, passed⟩ := firstExact.eq_ok_iff.mp read
    exact ⟨value, next, valid, passed, (secondBlames cursor value next error fed).mp failed⟩
  · rintro ⟨value, next, valid, passed, isBlamed⟩
    exact ⟨(value, next), firstExact.eq_ok_iff.mpr ⟨valid, passed⟩,
      (secondBlames cursor value next error fed).mpr isBlamed⟩

theorem after {starved : DecodeError → Prop} {written : α → Bytes} {allowed : α → Prop}
    {first : LayoutReader α} {second : Cursor → α × Cursor → Except DecodeError (β × Cursor)}
    {later : Cursor → α → Cursor → DecodeError → Prop}
    (firstExact : ReadsExactly starved written allowed first)
    (harmless : BlamesExactly first fun _ _ => False)
    (secondBlames : ∀ cursor value, BlamesExactly (fun next => second cursor (value, next))
      (later cursor value)) :
    BlamesExactly (fun cursor => first cursor >>= second cursor) fun cursor error =>
      ∃ value next, allowed value ∧ cursor.Passes (written value) next ∧
        later cursor value next error :=
  (andThen firstExact harmless secondBlames).congr fun _ _ => (false_or _).symm.to_iff

/-- A second step that always succeeds adds no failure. -/
theorem ending {first : LayoutReader α}
    {second : Cursor → α × Cursor → Except DecodeError (β × Cursor)}
    (firstBlames : BlamesExactly first blamed)
    (succeeds : ∀ cursor found, ∃ result, second cursor found = .ok result) :
    BlamesExactly (fun cursor => first cursor >>= second cursor) blamed := by
  intro cursor error fed
  rw [bind_eq_error_iff, firstBlames cursor error fed, or_iff_left]
  rintro ⟨found, -, failed⟩
  obtain ⟨result, succeeded⟩ := succeeds cursor found
  rw [succeeded] at failed
  cases failed

end BlamesExactly

theorem readWord_harmless (place : Place) : BlamesExactly (readWord place) fun _ _ => False :=
  .starving .u2 place Cursor.position

/-! ## Tables -/

/-- Items that fit, in front of one more of the announced number. -/
def LeavesItem {α : Type} (fits : α → Prop) (count : Nat) (items : List α) : Prop :=
  items.length < count ∧ ∀ item ∈ items, fits item

theorem leavesItem_cons {α : Type} {fits : α → Prop} {count : Nat} {item : α} {items : List α} :
    LeavesItem fits (count + 1) (item :: items) ↔ fits item ∧ LeavesItem fits count items := by
  simp [LeavesItem, and_left_comm]

/-- The start of a table, up to an item that was announced. -/
def encodeTableUpTo {α : Type} (encode : α → Bytes) (count : UInt16) (items : List α) : Bytes :=
  bytesOfU2 count ++ items.flatMap encode

theorem readItems_blames {α : Type} {written : α → Bytes} {allowed : α → Prop}
    {item : Nat → LayoutReader α} {blamed : Nat → Cursor → DecodeError → Prop}
    (itemExact : ∀ index, ReadsExactly DecodeError.IsTruncation written allowed (item index))
    (itemBlames : ∀ index, BlamesExactly (item index) (blamed index))
    (count index : Nat) (read : List α) :
    BlamesExactly (readItems item count index read) fun cursor error =>
      ∃ items next, LeavesItem allowed count items ∧ cursor.Passes (items.flatMap written) next ∧
        blamed (index + items.length) next error := by
  induction count generalizing index read with
  | zero => exact (BlamesExactly.done _).congr (by simp [LeavesItem])
  | succ count ih =>
      refine (BlamesExactly.andThen (itemExact index) (itemBlames index)
        fun _ value => ih (index + 1) (value :: read)).congr ?_
      intro cursor error
      constructor
      · rintro ⟨items, last, leaves, passed, isBlamed⟩
        cases items with
        | nil =>
            rw [List.flatMap_nil, Cursor.passes_nil_iff] at passed
            subst passed
            exact .inl isBlamed
        | cons value items =>
            obtain ⟨valid, leaves⟩ := leavesItem_cons.mp leaves
            rw [List.flatMap_cons, Cursor.passes_append_iff] at passed
            obtain ⟨next, first, rest⟩ := passed
            rw [List.length_cons, Nat.add_comm items.length, ← Nat.add_assoc] at isBlamed
            exact .inr ⟨value, next, valid, first, items, last, leaves, rest, isBlamed⟩
      · rintro (isBlamed | ⟨value, next, valid, first, items, last, leaves, rest, isBlamed⟩)
        · exact ⟨[], cursor, ⟨Nat.succ_pos count, nofun⟩, Cursor.passes_nil_iff.mpr rfl, isBlamed⟩
        · refine ⟨value :: items, last, leavesItem_cons.mpr ⟨valid, leaves⟩, ?_, ?_⟩
          · exact Cursor.passes_append_iff.mpr ⟨next, first, rest⟩
          · rwa [List.length_cons, Nat.add_comm items.length, ← Nat.add_assoc]

theorem readTable_blames {α : Type} {written : α → Bytes} {allowed : α → Prop}
    {item : Nat → LayoutReader α} {blamed : Nat → Cursor → DecodeError → Prop} (place : Place)
    (itemExact : ∀ index, ReadsExactly DecodeError.IsTruncation written allowed (item index))
    (itemBlames : ∀ index, BlamesExactly (item index) (blamed index)) :
    BlamesExactly (readTable place item) fun cursor error =>
      ∃ (count : UInt16) (items : List α) (next : Cursor), LeavesItem allowed count.toNat items ∧
        cursor.Passes (encodeTableUpTo written count items) next ∧
        blamed items.length next error := by
  refine (BlamesExactly.after (readWord_exact place) (readWord_harmless place)
    fun _ count => readItems_blames itemExact itemBlames count.toNat 0 []).congr ?_
  intro cursor error
  simp only [encodeTableUpTo, Cursor.passes_append_iff, Nat.zero_add, true_and]
  constructor
  · rintro ⟨count, items, last, leaves, ⟨next, first, rest⟩, isBlamed⟩
    exact ⟨count, next, first, items, last, leaves, rest, isBlamed⟩
  · rintro ⟨count, next, first, items, last, leaves, rest, isBlamed⟩
    exact ⟨count, items, last, leaves, ⟨next, first, rest⟩, isBlamed⟩

/-! ## Unknown tags -/

/-- A constant for a slot that starts with a byte of no kind. -/
def UnknownTagAt (slot : Nat) (cursor : Cursor) (error : DecodeError) : Prop :=
  ∃ byte rest, cursor.rest = byte :: rest ∧ Tag.ofByte? byte = none ∧
    error = .unknownTag slot cursor.position byte

theorem readConstant_blames (slot : Nat) :
    BlamesExactly (readConstant slot) (UnknownTagAt slot) := by
  have tagExact := forPlace_exact (.constantTag slot) Cursor.position u1_exact
  intro cursor error fed
  rw [readConstant, bind_eq_error_iff]
  constructor
  · rintro (failed | ⟨⟨byte, next⟩, read, failed⟩)
    · exact False.elim ((BlamesExactly.starving .u1 (.constantTag slot) Cursor.position cursor error
        fed).mp failed)
    · obtain ⟨-, shape, -⟩ := tagExact.eq_ok_iff.mp read
      cases known : Tag.ofByte? byte with
      | none =>
          simp only [known] at failed
          cases failed
          exact ⟨byte, next.rest, shape, known, rfl⟩
      | some tag =>
          simp only [known] at failed
          exact False.elim ((BlamesExactly.starving (.readConstantBody tag) (.constant slot tag)
            (fun _ => cursor.position) next error fed).mp failed)
  · rintro ⟨byte, rest, shape, unknown, rfl⟩
    have read := tagExact.eq_ok_iff.mpr
      (⟨trivial, shape, rfl⟩ : True ∧ cursor.Passes [byte] ⟨cursor.position + 1, rest⟩)
    refine .inr ⟨_, read, ?_⟩
    simp only [unknown]

theorem slot_le_slotAfter (slot : Nat) (constants : List Constant) :
    slot ≤ slotAfter slot constants := by
  induction constants generalizing slot with
  | nil => exact Nat.le_refl slot
  | cons constant constants ih => exact Nat.le_trans (Nat.le_add_right _ _) (ih _)

theorem readConstants_blames (count slot : Nat) (read : List Constant) :
    BlamesExactly (readConstants count slot read) fun cursor error =>
      ∃ constants next, slotAfter slot constants < count ∧
        (∀ constant ∈ constants, constant.Fits) ∧
        cursor.Passes (constants.flatMap Constant.encode) next ∧
        UnknownTagAt (slotAfter slot constants) next error := by
  -- as for exactness, every constant takes a slot, so fewer of them are free at the next turn
  generalize measure : count - slot = remaining
  induction remaining using Nat.strongRecOn generalizing slot read with
  | ind remaining ih =>
      rw [funext (readConstants.eq_1 count slot read)]
      by_cases free : slot < count
      · simp only [free, ↓reduceIte]
        refine (BlamesExactly.andThen (readConstant_exact slot) (readConstant_blames slot)
          fun _ constant => ih (count - (slot + constant.slots))
            (by have := constant.slots_pos; omega) (slot + constant.slots) (constant :: read)
            rfl).congr ?_
        intro cursor error
        constructor
        · rintro ⟨constants, last, ahead, fits, passed, unknown⟩
          cases constants with
          | nil =>
              rw [List.flatMap_nil, Cursor.passes_nil_iff] at passed
              subst passed
              exact .inl unknown
          | cons constant constants =>
              rw [List.flatMap_cons, Cursor.passes_append_iff] at passed
              obtain ⟨next, first, rest⟩ := passed
              obtain ⟨valid, fits⟩ := List.forall_mem_cons.mp fits
              exact .inr ⟨constant, next, valid, first, constants, last, ahead, fits, rest, unknown⟩
        · rintro (unknown | ⟨constant, next, valid, first, constants, last, ahead, fits, rest,
            unknown⟩)
          · exact ⟨[], cursor, free, List.forall_mem_nil _, Cursor.passes_nil_iff.mpr rfl, unknown⟩
          · exact ⟨constant :: constants, last, ahead, List.forall_mem_cons.mpr ⟨valid, fits⟩,
              Cursor.passes_append_iff.mpr ⟨next, first, rest⟩, unknown⟩
      · simp only [free, ↓reduceIte]
        refine (BlamesExactly.done _).congr ?_
        intro cursor error
        refine ⟨?_, False.elim⟩
        rintro ⟨constants, next, ahead, -⟩
        exact free (Nat.lt_of_le_of_lt (slot_le_slotAfter slot constants) ahead)

/-! ## Overrunning attributes -/

/-- An attribute whose length exceeds what is left behind it. -/
def OverrunAt (owner : AttributeOwner) (index : Nat) (cursor : Cursor) (error : DecodeError) :
    Prop :=
  ∃ (name : PoolIndex) (length : UInt32) (rest : Bytes),
    cursor.rest = bytesOfU2 name ++ (bytesOfU4 length ++ rest) ∧ rest.length < length.toNat ∧
      error = .truncated (.attribute owner index) cursor.position
        (.overrun length.toNat (cursor.position + 2) rest.length)

theorem blob_blames (place : Place) (offset : Nat) :
    BlamesExactly (fun cursor => forPlace place offset cursor.blob) fun cursor error =>
      ∃ length rest, cursor.rest = bytesOfU4 length ++ rest ∧ rest.length < length.toNat ∧
        error = .truncated place offset (.overrun length.toNat cursor.position rest.length) := by
  intro cursor error fed
  constructor
  · intro failed
    cases read : cursor.blob with
    | ok found =>
        simp only [read] at failed
        cases failed
    | error reason =>
        simp only [read] at failed
        cases failed
        have overrun : reason ≠ .endOfData := by
          rintro rfl
          exact fed ⟨place, offset, rfl⟩
        obtain ⟨length, rest, shape, short, rfl⟩ := (blob_eq_error_iff overrun).mp read
        exact ⟨length, rest, shape, short, rfl⟩
  · rintro ⟨length, rest, shape, short, rfl⟩
    have failed := (blob_eq_error_iff (by simp)).mpr ⟨length, rest, shape, short, rfl⟩
    simp only [failed]
    rfl

theorem readAttribute_blames (owner : AttributeOwner) (index : Nat) :
    BlamesExactly (readAttribute owner index) (OverrunAt owner index) := by
  refine (BlamesExactly.after (forPlace_exact (.attribute owner index) Cursor.position u2_exact)
    (.starving .u2 (.attribute owner index) Cursor.position) fun cursor name =>
      .ending (blob_blames (.attribute owner index) cursor.position) fun _ _ => ⟨_, rfl⟩).congr ?_
  intro cursor error
  constructor
  · rintro ⟨name, length, rest, shape, short, same⟩
    exact ⟨name, ⟨cursor.position + 2, bytesOfU4 length ++ rest⟩, trivial, ⟨shape, rfl⟩,
      length, rest, rfl, short, same⟩
  · rintro ⟨name, next, -, ⟨shape, moved⟩, length, rest, body, short, same⟩
    rw [body] at shape
    rw [moved] at same
    exact ⟨name, length, rest, shape, short, same⟩

theorem readAttributes_blames (owner : AttributeOwner) :
    BlamesExactly (readAttributes owner) fun cursor error =>
      ∃ (count : UInt16) (attributes : List Attribute) (next : Cursor),
        LeavesItem Attribute.Fits count.toNat attributes ∧
        cursor.Passes (encodeTableUpTo Attribute.encode count attributes) next ∧
        OverrunAt owner attributes.length next error :=
  readTable_blames (.attributesCount owner) (readAttribute_exact owner) (readAttribute_blames owner)

/-- The start of a member with these attributes, up to the next of those it announces. -/
def Member.encodeUpTo (member : Member) (count : UInt16) : Bytes :=
  bytesOfU2 member.access ++ bytesOfU2 member.name ++ bytesOfU2 member.descriptor ++
    encodeTableUpTo Attribute.encode count member.attributes

/-- A member with an attribute whose length exceeds what is left. -/
def MemberOverrunAt (owner : AttributeOwner) (cursor : Cursor) (error : DecodeError) : Prop :=
  ∃ (member : Member) (count : UInt16) (next : Cursor),
    LeavesItem Attribute.Fits count.toNat member.attributes ∧
      cursor.Passes (member.encodeUpTo count) next ∧
      OverrunAt owner member.attributes.length next error

theorem readField_blames (index : Nat) :
    BlamesExactly (readField index) (MemberOverrunAt (.field index)) := by
  refine (BlamesExactly.after (forPlace_exact (.field index) Cursor.position wordTriple_exact)
    (.starving .wordTriple (.field index) Cursor.position) fun _ words =>
      .ending (readAttributes_blames (.field index)) fun _ _ => ⟨_, rfl⟩).congr ?_
  intro cursor error
  constructor
  · rintro ⟨member, count, last, leaves, passed, overrun⟩
    obtain ⟨next, head, rest⟩ := Cursor.passes_append_iff.mp passed
    exact ⟨(member.access, member.name, member.descriptor), next, trivial, head, count,
      member.attributes, last, leaves, rest, overrun⟩
  · rintro ⟨words, next, -, head, count, attributes, last, leaves, rest, overrun⟩
    exact ⟨⟨words.1, words.2.1, words.2.2, attributes⟩, count, last, leaves,
      Cursor.passes_append_iff.mpr ⟨next, head, rest⟩, overrun⟩

theorem readMethodEntry_blames (index : Nat) :
    BlamesExactly (readMethodEntry index) (MemberOverrunAt (.method index)) := by
  refine (BlamesExactly.after (readWord_exact (.methodAccess index)) (readWord_harmless _)
    fun _ access => .after (readWord_exact (.methodName index)) (readWord_harmless _)
      fun _ name => .after (readWord_exact (.methodDescriptor index)) (readWord_harmless _)
        fun _ descriptor => .ending (readAttributes_blames (.method index))
          fun _ _ => ⟨_, rfl⟩).congr ?_
  intro cursor error
  constructor
  · rintro ⟨member, count, last, leaves, passed, overrun⟩
    simp only [Member.encodeUpTo, Cursor.passes_append_iff] at passed
    obtain ⟨third, ⟨second, ⟨first, accessRead, nameRead⟩, descriptorRead⟩, rest⟩ := passed
    exact ⟨member.access, first, trivial, accessRead, member.name, second, trivial, nameRead,
      member.descriptor, third, trivial, descriptorRead, count, member.attributes, last, leaves,
      rest, overrun⟩
  · rintro ⟨access, first, -, accessRead, name, second, -, nameRead, descriptor, third, -,
      descriptorRead, count, attributes, last, leaves, rest, overrun⟩
    refine ⟨⟨access, name, descriptor, attributes⟩, count, last, leaves, ?_, overrun⟩
    simp only [Member.encodeUpTo, Cursor.passes_append_iff]
    exact ⟨third, ⟨second, ⟨first, accessRead, nameRead⟩, descriptorRead⟩, rest⟩

end ClassAudit
