import ClassAudit.ClassFile.Reading
import ClassAudit.Proofs.OutcomeProperties
import ClassAudit.Proofs.WordProperties

/-!
# Exact readers

A reader is exact for a written form when it accepts that form with anything behind it,
accepts nothing else, and runs out of data on every proper prefix. Exactness composes, so
that the layout of a whole file is settled by the layouts of its parts.
-/

set_option autoImplicit false

namespace ClassAudit

/-- A reader and a written form agree on the allowed values. `starved` holds of the errors
that a proper prefix may end in. -/
structure ReadsExactly {ε α : Type} (starved : ε → Prop) (written : α → Bytes)
    (allowed : α → Prop) (reader : Cursor → Except ε (α × Cursor)) : Prop where
  accepts {value : α} (valid : allowed value) (position : Nat) (rest : Bytes) :
    reader ⟨position, written value ++ rest⟩ =
      .ok (value, ⟨position + (written value).length, rest⟩)
  consumes {cursor next : Cursor} {value : α} (read : reader cursor = .ok (value, next)) :
    allowed value ∧ cursor.rest = written value ++ next.rest ∧
      next.position = cursor.position + (written value).length
  starves {value : α} (valid : allowed value) (position count : Nat)
    (short : count < (written value).length) :
    ∃ error, reader ⟨position, (written value).take count⟩ = .error error ∧ starved error

namespace ReadsExactly

variable {ε α β : Type} {starved : ε → Prop}

theorem congr {written written' : α → Bytes} {allowed allowed' : α → Prop}
    {reader : Cursor → Except ε (α × Cursor)}
    (exact : ReadsExactly starved written allowed reader)
    (sameAllowed : ∀ value, allowed' value ↔ allowed value)
    (sameWritten : ∀ value, allowed' value → written' value = written value) :
    ReadsExactly starved written' allowed' reader where
  accepts := by
    intro value valid position rest
    rw [sameWritten value valid]
    exact exact.accepts ((sameAllowed value).mp valid) position rest
  consumes := by
    intro cursor next value read
    obtain ⟨valid, shape, moved⟩ := exact.consumes read
    have valid' := (sameAllowed value).mpr valid
    rw [sameWritten value valid']
    exact ⟨valid', shape, moved⟩
  starves := by
    intro value valid position count short
    rw [sameWritten value valid] at short ⊢
    exact exact.starves ((sameAllowed value).mp valid) position count short

theorem done {written : α → Bytes} {allowed : α → Prop} {value : α}
    (only : ∀ other, allowed other ↔ other = value) (empty : written value = []) :
    ReadsExactly starved written allowed fun cursor => .ok (value, cursor) where
  accepts := by
    intro other valid position rest
    rw [(only other).mp valid, empty]
    rfl
  consumes := by
    intro cursor next other read
    cases read
    exact ⟨(only value).mpr rfl, by simp [empty], by simp [empty]⟩
  starves := by
    intro other valid position count short
    rw [(only other).mp valid, empty] at short
    simp at short

theorem refused {written : α → Bytes} {allowed : α → Prop} {error : Cursor → ε}
    (never : ∀ value, ¬ allowed value) :
    ReadsExactly starved written allowed fun cursor => .error (error cursor) where
  accepts := fun valid => absurd valid (never _)
  consumes := fun read => by cases read
  starves := fun valid => absurd valid (never _)

/-- Two reads in a row, where the second may depend on what the first returned and on where
it stood. `part` says which first values belong to a whole. -/
theorem andThen {written : β → Bytes} {allowed : β → Prop}
    {first : Cursor → Except ε (α × Cursor)}
    {second : Cursor → α × Cursor → Except ε (β × Cursor)}
    {firstWritten : α → Bytes} {firstAllowed : α → Prop} (secondWritten : β → Bytes)
    (part : β → α → Prop)
    (firstExact : ReadsExactly starved firstWritten firstAllowed first)
    (covers : ∀ whole, allowed whole → ∃ value, firstAllowed value ∧ part whole value)
    (joins : ∀ whole value, allowed whole → firstAllowed value → part whole value →
      written whole = firstWritten value ++ secondWritten whole)
    (secondExact : ∀ cursor value, firstAllowed value →
      ReadsExactly starved secondWritten (fun whole => allowed whole ∧ part whole value)
        fun next => second cursor (value, next)) :
    ReadsExactly starved written allowed fun cursor => first cursor >>= second cursor where
  accepts := by
    intro whole valid position rest
    obtain ⟨value, firstValid, belongs⟩ := covers whole valid
    have joined := joins whole value valid firstValid belongs
    have firstRead := firstExact.accepts firstValid position (secondWritten whole ++ rest)
    have secondRead := (secondExact ⟨position, written whole ++ rest⟩ value firstValid).accepts
      ⟨valid, belongs⟩ (position + (firstWritten value).length) rest
    simp only [joined, List.append_assoc, firstRead, bind, Except.bind] at secondRead ⊢
    rw [secondRead, List.length_append, Nat.add_assoc]
  consumes := by
    intro cursor next whole read
    obtain ⟨⟨value, middle⟩, firstRead, secondRead⟩ := bind_eq_ok read
    obtain ⟨firstValid, firstShape, firstMoved⟩ := firstExact.consumes firstRead
    obtain ⟨⟨valid, belongs⟩, secondShape, secondMoved⟩ :=
      (secondExact cursor value firstValid).consumes secondRead
    have joined := joins whole value valid firstValid belongs
    refine ⟨valid, ?_, ?_⟩
    · rw [firstShape, secondShape, joined, List.append_assoc]
    · rw [secondMoved, firstMoved, joined, List.length_append, Nat.add_assoc]
  starves := by
    intro whole valid position count short
    obtain ⟨value, firstValid, belongs⟩ := covers whole valid
    have joined := joins whole value valid firstValid belongs
    rw [joined] at short ⊢
    -- The cut falls either into the first part or behind it.
    by_cases inFirst : count < (firstWritten value).length
    · obtain ⟨error, failed, isStarved⟩ := firstExact.starves firstValid position count inFirst
      refine ⟨error, ?_, isStarved⟩
      rw [List.take_append_of_le_length (Nat.le_of_lt inFirst), failed]
      rfl
    · have cut : (firstWritten value ++ secondWritten whole).take count =
          firstWritten value ++
            (secondWritten whole).take (count - (firstWritten value).length) := by
        rw [List.take_append, List.take_of_length_le (Nat.le_of_not_lt inFirst)]
      rw [List.length_append] at short
      obtain ⟨error, failed, isStarved⟩ :=
        (secondExact ⟨position, firstWritten value ++
          (secondWritten whole).take (count - (firstWritten value).length)⟩ value
          firstValid).starves ⟨valid, belongs⟩ (position + (firstWritten value).length)
          (count - (firstWritten value).length) (by omega)
      refine ⟨error, ?_, isStarved⟩
      rw [cut, firstExact.accepts firstValid]
      exact failed

theorem field {allowed : β → Prop} {first : Cursor → Except ε (α × Cursor)}
    {second : Cursor → α × Cursor → Except ε (β × Cursor)}
    {firstWritten : α → Bytes} {firstAllowed : α → Prop} {secondWritten : β → Bytes}
    (part : β → α) (firstExact : ReadsExactly starved firstWritten firstAllowed first)
    (partAllowed : ∀ whole, allowed whole → firstAllowed (part whole))
    (secondExact : ∀ cursor value, firstAllowed value →
      ReadsExactly starved secondWritten (fun whole => allowed whole ∧ part whole = value)
        fun next => second cursor (value, next)) :
    ReadsExactly starved (fun whole => firstWritten (part whole) ++ secondWritten whole) allowed
      fun cursor => first cursor >>= second cursor := by
  refine andThen secondWritten (fun whole value => part whole = value) firstExact ?_ ?_ secondExact
  · intro whole valid
    exact ⟨part whole, partAllowed whole valid, rfl⟩
  · intro whole value valid _ same
    subst same
    rfl

/-- Errors may be renamed as long as starvation stays recognizable. -/
theorem mapError {δ : Type} {starved' : δ → Prop} {written : α → Bytes} {allowed : α → Prop}
    {reader : Cursor → Except ε (α × Cursor)} {rename : Cursor → ε → δ}
    (exact : ReadsExactly starved written allowed reader)
    (kept : ∀ cursor error, starved error → starved' (rename cursor error)) :
    ReadsExactly starved' written allowed
      fun cursor => (reader cursor).mapError (rename cursor) where
  accepts := by
    intro value valid position rest
    rw [exact.accepts valid position rest]
    rfl
  consumes := by
    intro cursor next value read
    cases inner : reader cursor with
    | error error =>
        rw [inner] at read
        cases read
    | ok result =>
        rw [inner] at read
        cases read
        exact exact.consumes inner
  starves := by
    intro value valid position count short
    obtain ⟨error, failed, isStarved⟩ := exact.starves valid position count short
    rw [failed]
    exact ⟨_, rfl, kept _ error isStarved⟩

end ReadsExactly

/-! ## Loops

A loop keeps what it has read in reverse. Its result continues that with the items still to
come, and only those are taken from the data. -/

/-- A list that continues what was read by an accepted remainder. -/
def Continues {α : Type} (read : List α) (accepted : List α → Prop) (items : List α) : Prop :=
  ∃ more, items = read.reverse ++ more ∧ accepted more

/-- The written form of the items that were not read yet. -/
def encodeUnread {α : Type} (written : α → Bytes) (read items : List α) : Bytes :=
  (items.drop read.length).flatMap written

theorem encodeUnread_continued {α : Type} (written : α → Bytes) (read more : List α) :
    encodeUnread written read (read.reverse ++ more) = more.flatMap written := by
  rw [encodeUnread, ← List.length_reverse, List.drop_left]

namespace ReadsExactly

variable {ε α : Type} {starved : ε → Prop} {written : α → Bytes} {read : List α}

theorem stop {accepted : List α → Prop} (only : ∀ more, accepted more ↔ more = []) :
    ReadsExactly starved (encodeUnread written read) (Continues read accepted)
      fun cursor => .ok (read.reverse, cursor) := by
  refine .done ?_ ?_
  · intro items
    simp only [Continues, only]
    constructor
    · intro given
      obtain ⟨_, rfl, rfl⟩ := given
      exact List.append_nil _
    · intro same
      subst same
      exact ⟨[], (List.append_nil _).symm, rfl⟩
  · simpa using encodeUnread_continued written read []

theorem step {allowed : α → Prop} {accepted : List α → Prop}
    {first : Cursor → Except ε (α × Cursor)}
    {loop : Cursor → α × Cursor → Except ε (List α × Cursor)}
    (firstExact : ReadsExactly starved written allowed first) (nonempty : ¬ accepted [])
    (headAllowed : ∀ value rest, accepted (value :: rest) → allowed value)
    (loopExact : ∀ cursor value, allowed value →
      ReadsExactly starved (encodeUnread written (value :: read))
        (Continues (value :: read) fun rest => accepted (value :: rest))
        fun next => loop cursor (value, next)) :
    ReadsExactly starved (encodeUnread written read) (Continues read accepted)
      fun cursor => first cursor >>= loop cursor := by
  refine .andThen (fun items => (items.drop (read.length + 1)).flatMap written)
    (fun items value => ∃ rest, items = read.reverse ++ value :: rest) firstExact ?_ ?_ ?_
  · intro items given
    obtain ⟨more, rfl, isAccepted⟩ := given
    cases more with
    | nil => exact absurd isAccepted nonempty
    | cons value rest => exact ⟨value, headAllowed value rest isAccepted, rest, rfl⟩
  · intro items value _ _ given
    obtain ⟨rest, rfl⟩ := given
    have unread := encodeUnread_continued written (value :: read) rest
    rw [List.reverse_cons, List.append_assoc] at unread
    rw [encodeUnread_continued, List.flatMap_cons, ← unread]
    rfl
  · intro cursor value valid
    refine (loopExact cursor value valid).congr ?_ fun _ _ => rfl
    intro items
    constructor
    · intro given
      obtain ⟨⟨more, shape, isAccepted⟩, rest, rfl⟩ := given
      have same : value :: rest = more := List.append_cancel_left shape
      subst same
      exact ⟨rest, by simp, isAccepted⟩
    · intro given
      obtain ⟨rest, rfl, isAccepted⟩ := given
      have reordered : (value :: read).reverse ++ rest = read.reverse ++ value :: rest := by simp
      exact ⟨⟨value :: rest, reordered, isAccepted⟩, rest, reordered⟩

end ReadsExactly

/-! ## Stream reads -/

/-- Every stream error is one of missing data. -/
def AnyStreamError (_ : StreamError) : Prop := True

theorem take_exact (count : Nat) :
    ReadsExactly AnyStreamError (fun taken => taken) (fun taken => taken.length = count)
      (Cursor.take count) where
  accepts := by
    intro taken same position rest
    subst same
    have split := Bytes.split?_eq_some_iff.mpr
      (⟨rfl, rfl⟩ : taken.length = taken.length ∧ taken ++ rest = taken ++ rest)
    simp only [Cursor.take, split]
  consumes := by
    intro cursor next taken read
    simp only [Cursor.take] at read
    split at read
    · rename_i found
      cases read
      obtain ⟨full, shape⟩ := Bytes.split?_eq_some_iff.mp found
      exact ⟨full, shape, by rw [full]⟩
    · cases read
  starves := by
    intro taken same position count short
    subst same
    have split : Bytes.split? taken.length (taken.take count) = none :=
      Bytes.split?_eq_none_iff.mpr (by simp; omega)
    refine ⟨.endOfData, ?_, trivial⟩
    simp only [Cursor.take, split]

/-- A word of fixed width: its bytes and its value determine each other. -/
theorem word_exact {α : Type} {count : Nat} {written : α → Bytes} (value : Bytes → α)
    (width : ∀ word, (written word).length = count)
    (valueWritten : ∀ word, value (written word) = word)
    (writtenValue : ∀ bytes : Bytes, bytes.length = count → written (value bytes) = bytes) :
    ReadsExactly AnyStreamError written (fun _ => True) fun cursor => do
      let (taken, next) ← cursor.take count
      return (value taken, next) := by
  refine .andThen (fun _ => []) (fun word taken => word = value taken) (take_exact count) ?_ ?_ ?_
  · intro word _
    exact ⟨written word, width word, (valueWritten word).symm⟩
  · intro _ taken _ full same
    subst same
    rw [writtenValue taken full, List.append_nil]
  · intro _ taken _
    exact .done (by simp) rfl

theorem u1_exact : ReadsExactly AnyStreamError (fun byte => [byte]) (fun _ => True) Cursor.u1 :=
  word_exact (fun bytes => (bigEndian bytes).toUInt8) (fun _ => rfl)
    (fun byte => by simp [bigEndian]) fun _ => bytesOfU1_bigEndian

theorem u2_exact : ReadsExactly AnyStreamError bytesOfU2 (fun _ => True) Cursor.u2 :=
  word_exact (fun bytes => (bigEndian bytes).toUInt16) length_bytesOfU2
    toUInt16_bigEndian fun _ => bytesOfU2_bigEndian

theorem u4_exact : ReadsExactly AnyStreamError bytesOfU4 (fun _ => True) Cursor.u4 :=
  word_exact (fun bytes => (bigEndian bytes).toUInt32) length_bytesOfU4
    toUInt32_bigEndian fun _ => bytesOfU4_bigEndian

theorem u8_exact : ReadsExactly AnyStreamError bytesOfU8 (fun _ => True) Cursor.u8 :=
  word_exact (fun bytes => (bigEndian bytes).toUInt64) length_bytesOfU8
    toUInt64_bigEndian fun _ => bytesOfU8_bigEndian

theorem blob_eq_bind (cursor : Cursor) :
    cursor.blob = cursor.u4 >>= fun (length, next) =>
      (next.take length.toNat).mapError fun _ =>
        .overrun length.toNat cursor.position next.remaining := by
  simp only [Cursor.blob, Cursor.blobAttempt, bind, Except.bind]
  cases cursor.u4 with
  | error error => rfl
  | ok found =>
      obtain ⟨length, next⟩ := found
      cases body : next.take length.toNat with
      | error error => simp only [body]; rfl
      | ok result => simp only [body]; rfl

theorem blob_exact :
    ReadsExactly AnyStreamError (fun body => bytesOfU4 body.length.toUInt32 ++ body)
      (fun body => body.length < 0x100000000) Cursor.blob := by
  rw [funext blob_eq_bind]
  refine .andThen (fun body => body) (fun body length => length = body.length.toUInt32)
    u4_exact ?_ ?_ ?_
  · intro body _
    exact ⟨_, trivial, rfl⟩
  · intro body _ _ _ same
    subst same
    rfl
  · intro cursor length _
    exact ((take_exact length.toNat).mapError fun _ _ _ => trivial).congr
      (fun _ => eq_toUInt32_iff) fun _ _ => rfl

theorem shortBlob_exact :
    ReadsExactly AnyStreamError (fun body => bytesOfU2 body.length.toUInt16 ++ body)
      (fun body => body.length < 0x10000) Cursor.shortBlob := by
  refine .andThen (fun body => body) (fun body length => length = body.length.toUInt16)
    u2_exact ?_ ?_ ?_
  · intro body _
    exact ⟨_, trivial, rfl⟩
  · intro body _ _ _ same
    subst same
    rfl
  · intro _ length _
    exact (take_exact length.toNat).congr (fun _ => eq_toUInt16_iff) fun _ _ => rfl

/-! ## Layout reads -/

/-- The error of a read that ran out of data, wherever it was made. -/
def DecodeError.IsTruncation (error : DecodeError) : Prop :=
  ∃ place offset reason, error = .truncated place offset reason

theorem forPlace_exact {α : Type} {written : α → Bytes} {allowed : α → Prop}
    {reader : Cursor → Except StreamError (α × Cursor)} (place : Place) (offset : Cursor → Nat)
    (exact : ReadsExactly AnyStreamError written allowed reader) :
    ReadsExactly DecodeError.IsTruncation written allowed
      fun cursor => forPlace place (offset cursor) (reader cursor) := by
  have renamed : ∀ cursor, forPlace place (offset cursor) (reader cursor) =
      (reader cursor).mapError (.truncated place (offset cursor)) := by
    intro cursor
    cases reader cursor <;> rfl
  rw [funext renamed]
  exact exact.mapError fun cursor error _ => ⟨place, offset cursor, error, rfl⟩

theorem readWord_exact (place : Place) :
    ReadsExactly DecodeError.IsTruncation bytesOfU2 (fun _ => True) (readWord place) :=
  forPlace_exact place Cursor.position u2_exact

theorem readItems_exact {α : Type} {written : α → Bytes} {allowed : α → Prop}
    {item : Nat → LayoutReader α}
    (itemExact : ∀ index, ReadsExactly DecodeError.IsTruncation written allowed (item index))
    (count index : Nat) (read : List α) :
    ReadsExactly DecodeError.IsTruncation (encodeUnread written read)
      (Continues read fun more => more.length = count ∧ ∀ value ∈ more, allowed value)
      (readItems item count index read) := by
  induction count generalizing index read with
  | zero =>
      refine .stop ?_
      intro more
      constructor
      · exact fun isAccepted => List.length_eq_zero_iff.mp isAccepted.1
      · intro same
        subst same
        simp
  | succ count ih =>
      refine .step (itemExact index) ?_ ?_ ?_
      · simp
      · intro value rest isAccepted
        exact isAccepted.2 value List.mem_cons_self
      · intro _ value valid
        refine (ih (index + 1) (value :: read)).congr ?_ fun _ _ => rfl
        simp [Continues, valid]

theorem readTable_exact {α : Type} {written : α → Bytes} {allowed : α → Prop}
    {item : Nat → LayoutReader α} (place : Place)
    (itemExact : ∀ index, ReadsExactly DecodeError.IsTruncation written allowed (item index)) :
    ReadsExactly DecodeError.IsTruncation (encodeTable written)
      (fun items => items.length < 0x10000 ∧ ∀ value ∈ items, allowed value)
      (readTable place item) := by
  refine .andThen (fun items => items.flatMap written)
    (fun items count => count = items.length.toUInt16) (readWord_exact place) ?_ ?_ ?_
  · intro items _
    exact ⟨_, trivial, rfl⟩
  · intro items _ _ _ same
    subst same
    rfl
  · intro _ count _
    refine (readItems_exact itemExact count.toNat 0 []).congr ?_ fun _ _ => rfl
    intro items
    rw [and_right_comm, eq_toUInt16_iff]
    simp [Continues]

end ClassAudit
