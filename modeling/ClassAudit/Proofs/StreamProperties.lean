import ClassAudit.Proofs.ReaderProperties

/-!
# Steps over a stream

Any row of steps, failing ones included, cuts the data into the chunks that the steps consume
and a rest that is still ahead. A step consumes the bytes of what it returns, or nothing when
they are not all there; only a blob can fail after its length.
-/

set_option autoImplicit false

namespace ClassAudit

/-! ## What a step asks for -/

/-- The bytes of a successful step, and what it returns for them. -/
inductive StreamStep.Reads : StreamStep → Bytes → StreamItem → Prop where
  | u1 (word : UInt8) : StreamStep.Reads .u1 [word] (.u1 word)
  | u2 (word : UInt16) : StreamStep.Reads .u2 (bytesOfU2 word) (.u2 word)
  | u4 (word : UInt32) : StreamStep.Reads .u4 (bytesOfU4 word) (.u4 word)
  | u8 (word : UInt64) : StreamStep.Reads .u8 (bytesOfU8 word) (.u8 word)
  | bytes (chunk : Bytes) : StreamStep.Reads (.bytes chunk.length) chunk (.bytes chunk)
  | skip (chunk : Bytes) : StreamStep.Reads (.skip chunk.length) chunk .nothing
  | blob {length : UInt32} {body : Bytes} (sized : body.length = length.toNat) :
      StreamStep.Reads .blob (bytesOfU4 length ++ body) .nothing

/-- How many bytes a step asks for, given the bytes ahead of it. A negative count asks for
nothing that could be had; a blob is as long as the four bytes ahead say. -/
def StreamStep.needs? (ahead : Bytes) : StreamStep → Option Nat
  | .u1 => some 1
  | .u2 => some 2
  | .u4 => some 4
  | .u8 => some 8
  | .bytes count => if count < 0 then none else some count.toNat
  | .skip count => if count < 0 then none else some count.toNat
  | .blob => some (4 + bigEndian (ahead.take 4))

theorem StreamStep.Reads.needs? {step : StreamStep} {chunk : Bytes} {item : StreamItem}
    (read : step.Reads chunk item) (rest : Bytes) :
    step.needs? (chunk ++ rest) = some chunk.length := by
  cases read with
  | u1 | u2 | u4 | u8 => rfl
  | bytes chunk | skip chunk =>
      have natural : ¬ (chunk.length : Int) < 0 := by omega
      rw [StreamStep.needs?, if_neg natural, Int.toNat_natCast]
  | @blob length body sized =>
      have ahead : (bytesOfU4 length ++ body ++ rest).take 4 = bytesOfU4 length := by
        rw [List.append_assoc]
        exact List.take_left' (length_bytesOfU4 length)
      rw [StreamStep.needs?, ahead, bigEndian_bytesOfU4, List.length_append, length_bytesOfU4,
        sized]

/-! ## Single steps -/

/-- What a step can do at a cursor: read its bytes, find too few of them, or stop behind the
length of a blob that overruns the data. -/
inductive StreamStep.Runs (step : StreamStep) (cursor : Cursor) :
    Except StreamError StreamItem × Cursor → Prop where
  | reads {chunk rest : Bytes} {item : StreamItem} (read : step.Reads chunk item)
      (shape : cursor.rest = chunk ++ rest) :
      StreamStep.Runs step cursor (.ok item, ⟨cursor.position + chunk.length, rest⟩)
  | starves
      (short : ∀ size, step.needs? cursor.rest = some size → cursor.rest.length < size) :
      StreamStep.Runs step cursor (.error .endOfData, cursor)
  | overruns {length : UInt32} {rest : Bytes} (blob : step = .blob)
      (shape : cursor.rest = bytesOfU4 length ++ rest) (short : rest.length < length.toNat) :
      StreamStep.Runs step cursor
        (.error (.overrun length.toNat cursor.position rest.length), ⟨cursor.position + 4, rest⟩)

theorem Cursor.take_cases (cursor : Cursor) (count : Nat) :
    (∃ taken rest, taken.length = count ∧ cursor.rest = taken ++ rest ∧
      cursor.take count = .ok (taken, ⟨cursor.position + count, rest⟩)) ∨
    cursor.rest.length < count ∧ cursor.take count = .error .endOfData := by
  cases split : cursor.rest.split? count with
  | some found =>
      obtain ⟨full, shape⟩ := Bytes.split?_eq_some_iff.mp split
      exact .inl ⟨found.1, found.2, full, shape, by rw [Cursor.take, split]⟩
  | none => exact .inr ⟨Bytes.split?_eq_none_iff.mp split, by rw [Cursor.take, split]⟩

/-- Every step but a blob takes a number of bytes and makes its item of them. -/
theorem StreamStep.Runs.of_take {α : Type} {step : StreamStep} {cursor : Cursor} {count : Nat}
    {value : Bytes → α} {item : α → StreamItem}
    (needed : step.needs? cursor.rest = some count)
    (reads : ∀ taken : Bytes, taken.length = count → step.Reads taken (item (value taken))) :
    step.Runs cursor
      (settle cursor item ((cursor.take count).map fun found => (value found.1, found.2))) := by
  rcases cursor.take_cases count with ⟨taken, rest, full, shape, done⟩ | ⟨short, failed⟩
  · rw [done, ← full]
    exact .reads (reads taken full) shape
  · rw [failed]
    refine .starves ?_
    intro size asked
    rw [needed] at asked
    cases asked
    exact short

theorem Cursor.take_word {α : Type} (value : Bytes → α) (count : Nat) (cursor : Cursor) :
    (do
      let (taken, next) ← cursor.take count
      return (value taken, next) : Except StreamError (α × Cursor)) =
      (cursor.take count).map fun found => (value found.1, found.2) := by
  cases cursor.take count <;> rfl

theorem StreamStep.Runs.of_word {α : Type} {step : StreamStep} {cursor : Cursor} {count : Nat}
    {value : Bytes → α} {written : α → Bytes} {item : α → StreamItem}
    (needed : step.needs? cursor.rest = some count)
    (writtenValue : ∀ bytes : Bytes, bytes.length = count → written (value bytes) = bytes)
    (reads : ∀ word, step.Reads (written word) (item word)) :
    step.Runs cursor (settle cursor item do
      let (taken, next) ← cursor.take count
      return (value taken, next)) := by
  rw [Cursor.take_word]
  refine .of_take needed ?_
  intro taken full
  have read := reads (value taken)
  rwa [writtenValue taken full] at read

theorem StreamStep.bytes_runs (cursor : Cursor) (count : Int) :
    (StreamStep.bytes count).Runs cursor
        (settle cursor .bytes (cursor.takeSigned count)) ∧
      (StreamStep.skip count).Runs cursor
        (settle cursor (fun _ => .nothing) (cursor.takeSigned count)) := by
  by_cases negative : count < 0
  · have unasked : ∀ size, (none : Option Nat) = some size → cursor.rest.length < size := by
      intro size asked
      cases asked
    rw [Cursor.takeSigned, if_pos negative]
    constructor
    · refine .starves ?_
      rw [StreamStep.needs?, if_pos negative]
      exact unasked
    · refine .starves ?_
      rw [StreamStep.needs?, if_pos negative]
      exact unasked
  · have same : cursor.takeSigned count =
        (cursor.take count.toNat).map fun found => (id found.1, found.2) := by
      rw [Cursor.takeSigned, if_neg negative]
      cases cursor.take count.toNat <;> rfl
    have counted : ∀ taken : Bytes, taken.length = count.toNat → count = taken.length := by
      intro taken full
      omega
    rw [same]
    constructor
    · refine .of_take (if_neg negative) ?_
      intro taken full
      rw [counted taken full]
      exact .bytes taken
    · refine .of_take (if_neg negative) ?_
      intro taken full
      rw [counted taken full]
      exact .skip taken

theorem StreamStep.blob_runs (cursor : Cursor) :
    StreamStep.blob.Runs cursor (StreamStep.blob.run cursor) := by
  have word : cursor.u4 =
      (cursor.take 4).map fun found => ((bigEndian found.1).toUInt32, found.2) :=
    Cursor.take_word (fun bytes => (bigEndian bytes).toUInt32) 4 cursor
  rcases cursor.take_cases 4 with ⟨taken, rest, full, shape, done⟩ | ⟨short, failed⟩
  · obtain ⟨length, written⟩ : ∃ length, (bigEndian taken).toUInt32 = length := ⟨_, rfl⟩
    have found : cursor.u4 = .ok (length, ⟨cursor.position + 4, rest⟩) := by
      rw [word, done, ← written]
      rfl
    rw [← bytesOfU4_bigEndian full, written] at shape
    rcases Cursor.take_cases ⟨cursor.position + 4, rest⟩ length.toNat with
      ⟨body, behind, sized, inside, read⟩ | ⟨short, failed⟩
    · have ran : StreamStep.blob.run cursor =
          (.ok .nothing, ⟨cursor.position + 4 + length.toNat, behind⟩) := by
        simp only [StreamStep.run, Cursor.blobAttempt, found, read, Except.map]
      change rest = body ++ behind at inside
      rw [ran, Nat.add_assoc, ← sized, ← length_bytesOfU4 length, ← List.length_append]
      refine .reads (.blob sized) ?_
      rw [shape, inside, List.append_assoc]
    · have ran : StreamStep.blob.run cursor =
          (.error (.overrun length.toNat cursor.position rest.length),
            ⟨cursor.position + 4, rest⟩) := by
        simp only [StreamStep.run, Cursor.blobAttempt, found, failed, Except.map, Cursor.remaining]
      rw [ran]
      exact .overruns rfl shape short
  · have refused : cursor.u4 = .error .endOfData := by
      rw [word, failed]
      rfl
    have ran : StreamStep.blob.run cursor = (.error .endOfData, cursor) := by
      simp only [StreamStep.run, Cursor.blobAttempt, refused, Except.map]
    rw [ran]
    refine .starves ?_
    intro size asked
    rw [StreamStep.needs?, Option.some.injEq] at asked
    omega

theorem StreamStep.run_runs (step : StreamStep) (cursor : Cursor) :
    step.Runs cursor (step.run cursor) := by
  cases step with
  | u1 =>
      have needed : StreamStep.u1.needs? cursor.rest = some 1 := rfl
      exact .of_word needed (fun _ => bytesOfU1_bigEndian) .u1
  | u2 =>
      have needed : StreamStep.u2.needs? cursor.rest = some 2 := rfl
      exact .of_word needed (fun _ => bytesOfU2_bigEndian) .u2
  | u4 =>
      have needed : StreamStep.u4.needs? cursor.rest = some 4 := rfl
      exact .of_word needed (fun _ => bytesOfU4_bigEndian) .u4
  | u8 =>
      have needed : StreamStep.u8.needs? cursor.rest = some 8 := rfl
      exact .of_word needed (fun _ => bytesOfU8_bigEndian) .u8
  | bytes count => exact (StreamStep.bytes_runs cursor count).1
  | skip count => exact (StreamStep.bytes_runs cursor count).2
  | blob => exact StreamStep.blob_runs cursor

/-! ## Steps over data -/

/-- A cursor into data: it stands inside them, with the bytes from there ahead. -/
structure Cursor.Into (data : Bytes) (cursor : Cursor) : Prop where
  inside : cursor.position ≤ data.length
  ahead : cursor.rest = data.drop cursor.position

/-- What a step at a position of the data does: the chunk between the position and the next
cursor is consumed. The step succeeds exactly when its bytes are all there, and then the chunk is
their whole; a failing step consumes nothing, or the length of a blob that overruns the data. -/
structure StreamStep.Serves (data : Bytes) (position : Nat) (step : StreamStep)
    (result : Except StreamError StreamItem) (next : Cursor) (chunk : Bytes) : Prop where
  into : next.Into data
  remaining : (next.remaining : Int) = data.length - next.position
  moved : next.position = position + chunk.length
  consumed : data.drop position = chunk ++ data.drop next.position
  succeeds : (∃ item, result = .ok item) ↔
    ∃ size, step.needs? (data.drop position) = some size ∧ position + size ≤ data.length
  reads : ∀ item, result = .ok item →
    step.Reads chunk item ∧ step.needs? (data.drop position) = some chunk.length
  fails : ∀ error, result = .error error →
    error = .endOfData ∧ next.position = position ∨
    step = .blob ∧ ∃ length : UInt32, chunk = bytesOfU4 length ∧ next.position = position + 4 ∧
      next.remaining < length.toNat ∧
      error = .overrun length.toNat position next.remaining

theorem Cursor.Into.remaining {data : Bytes} {cursor : Cursor} (into : cursor.Into data) :
    (cursor.remaining : Int) = data.length - cursor.position := by
  have inside := into.inside
  rw [Cursor.remaining, into.ahead, List.length_drop]
  omega

theorem Cursor.Into.advance {data chunk rest : Bytes} {cursor : Cursor}
    (into : cursor.Into data) (shape : cursor.rest = chunk ++ rest) :
    (⟨cursor.position + chunk.length, rest⟩ : Cursor).Into data where
  inside := by
    have inside := into.inside
    have lengths := congrArg List.length (into.ahead.symm.trans shape)
    rw [List.length_drop, List.length_append] at lengths
    change cursor.position + chunk.length ≤ data.length
    omega
  ahead := by
    change rest = data.drop (cursor.position + chunk.length)
    rw [← List.drop_drop, ← into.ahead, shape, List.drop_left]

theorem StreamStep.Runs.serves {data : Bytes} {step : StreamStep} {cursor : Cursor}
    {outcome : Except StreamError StreamItem × Cursor} (into : cursor.Into data)
    (runs : step.Runs cursor outcome) :
    ∃ chunk, step.Serves data cursor.position outcome.1 outcome.2 chunk := by
  have inside := into.inside
  have sized : cursor.rest.length = data.length - cursor.position := by
    rw [into.ahead, List.length_drop]
  cases runs with
  | @reads chunk rest item read shape =>
      have next := into.advance shape
      have needed : step.needs? (data.drop cursor.position) = some chunk.length := by
        rw [← into.ahead, shape]
        exact read.needs? rest
      refine ⟨chunk, next, next.remaining, rfl, ?_, ?_, ?_, ?_⟩
      · rw [← next.ahead, ← into.ahead, shape]
      · exact ⟨fun _ => ⟨_, needed, next.inside⟩, fun _ => ⟨item, rfl⟩⟩
      · intro found same
        cases same
        exact ⟨read, needed⟩
      · intro error same
        cases same
  | starves short =>
      refine ⟨[], into, into.remaining, rfl, rfl, ?_, ?_, ?_⟩
      · constructor
        · rintro ⟨item, same⟩
          cases same
        · rintro ⟨size, asked, fits⟩
          have less := short size (into.ahead ▸ asked)
          omega
      · intro item same
        cases same
      · intro error same
        cases same
        exact .inl ⟨rfl, rfl⟩
  | @overruns length rest blob shape short =>
      have next := into.advance shape
      rw [length_bytesOfU4] at next
      have needed : step.needs? (data.drop cursor.position) = some (4 + length.toNat) := by
        rw [← into.ahead, shape, blob, StreamStep.needs?, List.take_left' (length_bytesOfU4 length),
          bigEndian_bytesOfU4]
      refine ⟨bytesOfU4 length, next, next.remaining, rfl, ?_, ?_, ?_, ?_⟩
      · rw [← next.ahead, ← into.ahead, shape]
      · constructor
        · rintro ⟨item, same⟩
          cases same
        · -- The length alone is there, but not as many bytes as it says.
          rintro ⟨size, asked, fits⟩
          rw [needed, Option.some.injEq] at asked
          rw [shape, List.length_append, length_bytesOfU4] at sized
          omega
      · intro item same
        cases same
      · intro error same
        cases same
        exact .inr ⟨blob, length, rfl, rfl, short, rfl⟩

/-! ## Rows of steps -/

/-- A row of steps over data from a position on, with the chunk that each of them consumes. Each
step starts where the one before ended, whether that one failed or not. -/
inductive StreamRun (data : Bytes) :
    Nat → List StreamStep → List (Except StreamError StreamItem × Cursor) → List Bytes → Prop where
  | done {position : Nat} : StreamRun data position [] [] []
  | step {position : Nat} {step : StreamStep} {steps : List StreamStep}
      {result : Except StreamError StreamItem} {next : Cursor}
      {outcomes : List (Except StreamError StreamItem × Cursor)} {chunk : Bytes}
      {chunks : List Bytes} (served : step.Serves data position result next chunk)
      (rest : StreamRun data next.position steps outcomes chunks) :
      StreamRun data position (step :: steps) ((result, next) :: outcomes) (chunk :: chunks)

theorem StreamRun.of_runSteps {data : Bytes} (steps : List StreamStep) {cursor : Cursor}
    (into : cursor.Into data) :
    ∃ chunks, StreamRun data cursor.position steps (runSteps cursor steps) chunks := by
  induction steps generalizing cursor with
  | nil => exact ⟨[], .done⟩
  | cons step steps ih =>
      obtain ⟨chunk, served⟩ := (step.run_runs cursor).serves into
      obtain ⟨chunks, rest⟩ := ih served.into
      exact ⟨chunk :: chunks, .step served rest⟩

/-- The bytes that are ahead after a row of steps that began with `ahead`. -/
def bytesAhead (ahead : Bytes) (outcomes : List (Except StreamError StreamItem × Cursor)) : Bytes :=
  outcomes.foldl (fun _ outcome => outcome.2.rest) ahead

theorem StreamRun.flatten {data : Bytes} {position : Nat} {steps : List StreamStep}
    {outcomes : List (Except StreamError StreamItem × Cursor)} {chunks : List Bytes}
    (run : StreamRun data position steps outcomes chunks) :
    chunks.flatten ++ bytesAhead (data.drop position) outcomes = data.drop position := by
  induction run with
  | done => rfl
  | step served rest ih =>
      rw [bytesAhead, List.foldl_cons, List.flatten_cons, List.append_assoc, served.consumed,
        served.into.ahead]
      exact congrArg _ ih

/-- The items that a row of steps returned. -/
def itemsRead (outcomes : List (Except StreamError StreamItem × Cursor)) : List StreamItem :=
  outcomes.filterMap fun outcome => outcome.1.toOption

/-- The bytes that an item stands for. -/
def StreamItem.encode : StreamItem → Bytes
  | .u1 word => [word]
  | .u2 word => bytesOfU2 word
  | .u4 word => bytesOfU4 word
  | .u8 word => bytesOfU8 word
  | .bytes chunk => chunk
  | .nothing => []

/-- Whether a step returns what it consumes. -/
def StreamStep.returnsAll : StreamStep → Bool
  | .skip _ | .blob => false
  | _ => true

theorem StreamStep.Reads.encode {step : StreamStep} {chunk : Bytes} {item : StreamItem}
    (read : step.Reads chunk item) (returning : step.returnsAll = true) :
    item.encode = chunk := by
  cases read with
  | u1 | u2 | u4 | u8 | bytes => rfl
  | skip | blob => cases returning

theorem StreamRun.encode {data : Bytes} {position : Nat} {steps : List StreamStep}
    {outcomes : List (Except StreamError StreamItem × Cursor)} {chunks : List Bytes}
    (run : StreamRun data position steps outcomes chunks)
    (returning : steps.all StreamStep.returnsAll = true) :
    (itemsRead outcomes).flatMap StreamItem.encode = chunks.flatten := by
  induction run with
  | done => rfl
  | @step position step steps result next outcomes chunk chunks served rest ih =>
      rw [List.all_cons, Bool.and_eq_true] at returning
      have others := ih returning.2
      cases result with
      | ok item =>
          have here := (served.reads item rfl).1.encode returning.1
          rw [List.flatten_cons, ← here, ← others]
          rfl
      | error error =>
          have nothing : chunk = [] := by
            rcases served.fails error rfl with ⟨-, stayed⟩ | ⟨rfl, -⟩
            · have moved := served.moved
              exact List.eq_nil_of_length_eq_zero (by omega)
            · cases returning.1
          rw [nothing, List.flatten_cons, List.nil_append, ← others]
          rfl

/-- Steps cut the data into the chunks that they consume, one behind the other, and the bytes that
are still ahead. Where no step skips anything, the items read are the bytes consumed. -/
theorem stream_steps_partition_data (data : Bytes) (steps : List StreamStep) :
    ∃ chunks, StreamRun data 0 steps (runSteps (.start data) steps) chunks ∧
      chunks.flatten ++ bytesAhead data (runSteps (.start data) steps) = data ∧
      (steps.all StreamStep.returnsAll = true →
        (itemsRead (runSteps (.start data) steps)).flatMap StreamItem.encode =
          chunks.flatten) := by
  have started : (Cursor.start data).Into data := ⟨Nat.zero_le _, rfl⟩
  obtain ⟨chunks, run⟩ := StreamRun.of_runSteps steps started
  exact ⟨chunks, run, run.flatten, run.encode⟩

/-- Two words, a read that fails between them and a blob that overruns the data. -/
theorem stream_steps_partition_data_overrun :
    runSteps (.start [0x12, 0x34, 0, 0, 0, 9, 7]) [.u2, .bytes (-1), .u8, .blob, .u1] =
      [(.ok (.u2 0x1234), ⟨2, [0, 0, 0, 9, 7]⟩),
        (.error .endOfData, ⟨2, [0, 0, 0, 9, 7]⟩),
        (.error .endOfData, ⟨2, [0, 0, 0, 9, 7]⟩),
        (.error (.overrun 9 2 1), ⟨6, [7]⟩),
        (.ok (.u1 7), ⟨7, []⟩)] ∧
    (itemsRead (runSteps (.start [0x12, 0x34, 7]) [.u2, .u4, .bytes 1])).flatMap
      StreamItem.encode = [0x12, 0x34, 7] := by
  refine ⟨by decide, ?_⟩
  obtain ⟨chunks, -, whole, encoded⟩ :=
    stream_steps_partition_data [0x12, 0x34, 7] [.u2, .u4, .bytes 1]
  have ahead : bytesAhead [0x12, 0x34, 7]
      (runSteps (.start [0x12, 0x34, 7]) [.u2, .u4, .bytes 1]) = [] := by
    decide
  rw [ahead, List.append_nil] at whole
  rw [encoded (by decide), whole]

end ClassAudit
