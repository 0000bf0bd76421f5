import ClassAudit.Proofs.DecodeProperties
import ClassAudit.Proofs.ReaderFailureProperties

/-!
# Failures of decoding

Every refused class file is refused for one cause. Unknown tags and overrunning attributes are
found in the data, behind everything that was read before them.
-/

set_option autoImplicit false

namespace ClassAudit

/-! ## Classes -/

/-- What stands between the header and the fields of a class. -/
inductive LeadsToFields (poolCount : UInt16) : Bytes → Prop
  | intro {constants : List Constant} {interfaces : List PoolIndex}
      (access thisClass superClass : UInt16) (fills : FillsSlots poolCount.toNat 1 constants)
      (constantsFit : ∀ constant ∈ constants, constant.Fits)
      (interfacesFit : interfaces.length < 0x10000) :
      LeadsToFields poolCount
        (constants.flatMap Constant.encode ++ (bytesOfU2 access ++ (bytesOfU2 thisClass ++
          (bytesOfU2 superClass ++ encodeTable bytesOfU2 interfaces))))

/-- What stands between the end of the interfaces and an attribute that its owner announces. -/
inductive LeadsToAttribute : AttributeOwner → Nat → Bytes → Prop
  | field {fieldCount count : UInt16} {fields : List Member} {member : Member}
      (ahead : LeavesItem Member.Fits fieldCount.toNat fields)
      (announced : LeavesItem Attribute.Fits count.toNat member.attributes) :
      LeadsToAttribute (.field fields.length) member.attributes.length
        (encodeTableUpTo Member.encode fieldCount fields ++ member.encodeUpTo count)
  | method {methodCount count : UInt16} {fields methods : List Member} {member : Member}
      (fieldsFit : TableFits Member.Fits fields)
      (ahead : LeavesItem Member.Fits methodCount.toNat methods)
      (announced : LeavesItem Attribute.Fits count.toNat member.attributes) :
      LeadsToAttribute (.method methods.length) member.attributes.length
        (encodeTable Member.encode fields ++
          (encodeTableUpTo Member.encode methodCount methods ++ member.encodeUpTo count))
  | wholeClass {count : UInt16} {fields methods : List Member} {attributes : List Attribute}
      (fieldsFit : TableFits Member.Fits fields) (methodsFit : TableFits Member.Fits methods)
      (announced : LeavesItem Attribute.Fits count.toNat attributes) :
      LeadsToAttribute .wholeClass attributes.length
        (encodeTable Member.encode fields ++ (encodeTable Member.encode methods ++
          encodeTableUpTo Attribute.encode count attributes))

/-- The first table whose reading fails holds the attribute, and those before it are complete. -/
theorem overruns_behind_interfaces_iff {cursor : Cursor} {error : DecodeError} :
    (∃ owner index before last, LeadsToAttribute owner index before ∧ cursor.Passes before last ∧
      OverrunAt owner index last error) ↔
    (∃ (count : UInt16) (fields : List Member) (next : Cursor),
      LeavesItem Member.Fits count.toNat fields ∧
        cursor.Passes (encodeTableUpTo Member.encode count fields) next ∧
        MemberOverrunAt (.field fields.length) next error) ∨
    ∃ (fields : List Member) (middle : Cursor), TableFits Member.Fits fields ∧
      cursor.Passes (encodeTable Member.encode fields) middle ∧
      ((∃ (count : UInt16) (methods : List Member) (next : Cursor),
        LeavesItem Member.Fits count.toNat methods ∧
          middle.Passes (encodeTableUpTo Member.encode count methods) next ∧
          MemberOverrunAt (.method methods.length) next error) ∨
      ∃ (methods : List Member) (after : Cursor), TableFits Member.Fits methods ∧
        middle.Passes (encodeTable Member.encode methods) after ∧
        ∃ (count : UInt16) (attributes : List Attribute) (next : Cursor),
          LeavesItem Attribute.Fits count.toNat attributes ∧
            after.Passes (encodeTableUpTo Attribute.encode count attributes) next ∧
            OverrunAt .wholeClass attributes.length next error) := by
  constructor
  · rintro ⟨owner, index, before, last, leads, passed, overrun⟩
    cases leads with
    | field ahead announced =>
        obtain ⟨next, first, rest⟩ := Cursor.passes_append_iff.mp passed
        exact .inl ⟨_, _, next, ahead, first, _, _, last, announced, rest, overrun⟩
    | method fieldsFit ahead announced =>
        simp only [Cursor.passes_append_iff] at passed
        obtain ⟨middle, fieldsRead, next, methodsRead, rest⟩ := passed
        exact .inr ⟨_, middle, fieldsFit, fieldsRead,
          .inl ⟨_, _, next, ahead, methodsRead, _, _, last, announced, rest, overrun⟩⟩
    | wholeClass fieldsFit methodsFit announced =>
        simp only [Cursor.passes_append_iff] at passed
        obtain ⟨middle, fieldsRead, after, methodsRead, rest⟩ := passed
        exact .inr ⟨_, middle, fieldsFit, fieldsRead,
          .inr ⟨_, after, methodsFit, methodsRead, _, _, last, announced, rest, overrun⟩⟩
  · rintro (⟨_, _, next, ahead, first, _, _, last, announced, rest, overrun⟩ |
      ⟨_, middle, fieldsFit, fieldsRead,
        ⟨_, _, next, ahead, methodsRead, _, _, last, announced, rest, overrun⟩ |
        ⟨_, after, methodsFit, methodsRead, _, _, last, announced, rest, overrun⟩⟩)
    · exact ⟨_, _, _, last, .field ahead announced,
        Cursor.passes_append_iff.mpr ⟨next, first, rest⟩, overrun⟩
    · refine ⟨_, _, _, last, .method fieldsFit ahead announced, ?_, overrun⟩
      simp only [Cursor.passes_append_iff]
      exact ⟨middle, fieldsRead, next, methodsRead, rest⟩
    · refine ⟨_, _, _, last, .wholeClass fieldsFit methodsFit announced, ?_, overrun⟩
      simp only [Cursor.passes_append_iff]
      exact ⟨middle, fieldsRead, after, methodsRead, rest⟩

theorem readInterfaces_harmless :
    BlamesExactly (readTable .interfacesCount fun _ => readWord .interfaceIndex)
      fun _ _ => False :=
  (readTable_blames .interfacesCount (fun _ => readWord_exact .interfaceIndex)
    fun _ => readWord_harmless .interfaceIndex).congr (by simp)

theorem readParts_blames (minor major poolCount : UInt16) :
    BlamesExactly (readParts minor major poolCount) fun cursor error =>
      (∃ constants next, slotAfter 1 constants < poolCount.toNat ∧
        (∀ constant ∈ constants, constant.Fits) ∧
        cursor.Passes (constants.flatMap Constant.encode) next ∧
        UnknownTagAt (slotAfter 1 constants) next error) ∨
      ∃ front next, LeadsToFields poolCount front ∧ cursor.Passes front next ∧
        ∃ owner index before last, LeadsToAttribute owner index before ∧
          next.Passes before last ∧ OverrunAt owner index last error := by
  refine (BlamesExactly.andThen (readPool_exact poolCount.toNat)
    (readConstants_blames poolCount.toNat 1 []) fun _ constants =>
    .after (readWord_exact .accessFlags) (readWord_harmless _) fun _ access =>
    .after (readWord_exact .thisClass) (readWord_harmless _) fun _ thisClass =>
    .after (readWord_exact .superClass) (readWord_harmless _) fun _ superClass =>
    .after (readTable_exact .interfacesCount fun _ => readWord_exact .interfaceIndex)
      readInterfaces_harmless fun _ interfaces =>
    .andThen (readTable_exact .fieldsCount readField_exact)
      (readTable_blames .fieldsCount readField_exact readField_blames) fun _ fields =>
    .andThen (readTable_exact .methodsCount readMethodEntry_exact)
      (readTable_blames .methodsCount readMethodEntry_exact readMethodEntry_blames)
      fun _ methods => .ending (readAttributes_blames .wholeClass) fun _ _ => ⟨_, rfl⟩).congr ?_
  intro cursor error
  refine or_congr_right ?_
  simp only [overruns_behind_interfaces_iff]
  constructor
  · rintro ⟨front, next, ⟨access, thisClass, superClass, fills, constantsFit, interfacesFit⟩,
      passed, overrun⟩
    simp only [Cursor.passes_append_iff] at passed
    obtain ⟨first, constantsRead, second, accessRead, third, thisRead, fourth, superRead,
      interfacesRead⟩ := passed
    exact ⟨_, first, ⟨fills, constantsFit⟩, constantsRead, access, second, trivial, accessRead,
      thisClass, third, trivial, thisRead, superClass, fourth, trivial, superRead, _, next,
      ⟨interfacesFit, fun _ _ => trivial⟩, interfacesRead, overrun⟩
  · rintro ⟨constants, first, ⟨fills, constantsFit⟩, constantsRead, access, second, -, accessRead,
      thisClass, third, -, thisRead, superClass, fourth, -, superRead, interfaces, next,
      ⟨interfacesFit, -⟩, interfacesRead, overrun⟩
    refine ⟨_, next, .intro access thisClass superClass fills constantsFit interfacesFit, ?_,
      overrun⟩
    simp only [Cursor.passes_append_iff]
    exact ⟨first, constantsRead, second, accessRead, third, thisRead, fourth, superRead,
      interfacesRead⟩

/-- The header is refused before anything behind it is read. -/
theorem readHeader_eq_error {data : Bytes} {error : DecodeError}
    (failed : readHeader data = .error error) : error.toFault.has .malformedHeader = true := by
  simp only [readHeader] at failed
  split at failed
  · cases failed
    rfl
  · split at failed
    · cases failed
      rfl
    · split at failed
      · cases failed
        rfl
      · cases failed

theorem readHeader_eq_ok_iff {data : Bytes} {minor major poolCount : UInt16} {next : Cursor} :
    readHeader data = .ok ((minor, major, poolCount), next) ↔
      1 ≤ poolCount.toNat ∧
        (Cursor.start data).Passes (encodeHeader minor major poolCount) next := by
  constructor
  · intro read
    obtain ⟨declared, shape, moved⟩ := readHeader_eq_ok read
    exact ⟨declared, shape, by rw [moved, length_encodeHeader]; exact (Nat.zero_add _).symm⟩
  · rintro ⟨declared, shape, moved⟩
    obtain ⟨position, rest⟩ := next
    simp only [Cursor.start, length_encodeHeader, Nat.zero_add] at shape moved
    subst shape moved
    exact readHeader_encode declared rest

/-- The bytes that announce a constant of a known kind. -/
def knownTagBytes : Bytes := [1, 3, 4, 5, 6, 7, 8, 9, 10, 11, 12, 15, 16, 17, 18, 19, 20]

theorem ofByte?_eq_none_iff (byte : UInt8) : Tag.ofByte? byte = none ↔ byte ∉ knownTagBytes := by
  have table : ∀ value < 256, Tag.ofByte? (UInt8.ofNat value) = none ↔
      UInt8.ofNat value ∉ knownTagBytes := by
    decide +kernel
  have known := table byte.toNat byte.toNat_lt
  rwa [UInt8.ofNat_toNat] at known

/-- The walk through the pool reaches a constant whose tag is of no known kind. -/
def MeetsUnknownTag (data : Bytes) : Prop :=
  ∃ (minor major poolCount : UInt16) (constants : List Constant) (byte : UInt8) (rest : Bytes),
    (∀ constant ∈ constants, constant.Fits) ∧ slotAfter 1 constants < poolCount.toNat ∧
      data = encodeHeader minor major poolCount ++
        (constants.flatMap Constant.encode ++ byte :: rest) ∧
      byte ∉ knownTagBytes

/-- An attribute that the reading reaches declares more bytes than are left behind its length. -/
def OverrunsAttribute (data : Bytes) : Prop :=
  ∃ (minor major poolCount : UInt16) (front : Bytes) (owner : AttributeOwner) (index : Nat)
    (before : Bytes) (name : PoolIndex) (length : UInt32) (rest : Bytes),
    1 ≤ poolCount.toNat ∧ LeadsToFields poolCount front ∧ LeadsToAttribute owner index before ∧
      data = encodeHeader minor major poolCount ++
        (front ++ (before ++ (bytesOfU2 name ++ (bytesOfU4 length ++ rest)))) ∧
      rest.length < length.toNat

/-- The failures behind the header other than missing data. -/
theorem readClass_eq_error_iff {data : Bytes} {error : DecodeError} (fed : ¬ error.IsStarvation)
    (headed : error.toFault.has .malformedHeader = false) :
    readClass data = .error error ↔
      ∃ minor major poolCount next, 1 ≤ poolCount.toNat ∧
        (Cursor.start data).Passes (encodeHeader minor major poolCount) next ∧
        ((∃ constants last, slotAfter 1 constants < poolCount.toNat ∧
          (∀ constant ∈ constants, constant.Fits) ∧
          next.Passes (constants.flatMap Constant.encode) last ∧
          UnknownTagAt (slotAfter 1 constants) last error) ∨
        ∃ front middle, LeadsToFields poolCount front ∧ next.Passes front middle ∧
          ∃ owner index before last, LeadsToAttribute owner index before ∧
            middle.Passes before last ∧ OverrunAt owner index last error) := by
  rw [readClass, bind_eq_error_iff]
  constructor
  · rintro (failed | ⟨⟨⟨minor, major, poolCount⟩, next⟩, header, failed⟩)
    · rw [readHeader_eq_error failed] at headed
      cases headed
    · obtain ⟨declared, passed⟩ := readHeader_eq_ok_iff.mp header
      exact ⟨minor, major, poolCount, next, declared, passed,
        (readParts_blames minor major poolCount next error fed).mp failed⟩
  · rintro ⟨minor, major, poolCount, next, declared, passed, blamed⟩
    exact .inr ⟨_, readHeader_eq_ok_iff.mpr ⟨declared, passed⟩,
      (readParts_blames minor major poolCount next error fed).mpr blamed⟩

theorem readClass_eq_unknownTag_iff {data : Bytes} :
    (∃ slot offset byte, readClass data = .error (.unknownTag slot offset byte)) ↔
      MeetsUnknownTag data := by
  have fed : ∀ slot offset byte, ¬ (DecodeError.unknownTag slot offset byte).IsStarvation := by
    rintro slot offset byte ⟨place, start, same⟩
    cases same
  constructor
  · rintro ⟨slot, offset, byte, failed⟩
    obtain ⟨minor, major, poolCount, next, -, header, unknown | overrun⟩ :=
      (readClass_eq_error_iff (fed slot offset byte) rfl).mp failed
    · obtain ⟨constants, last, ahead, fits, pool, found, rest, shape, isUnknown, same⟩ := unknown
      cases same
      refine ⟨minor, major, poolCount, constants, byte, rest, fits, ahead, ?_,
        (ofByte?_eq_none_iff byte).mp isUnknown⟩
      rw [← shape, ← pool.1]
      exact header.1
    · obtain ⟨_, _, -, -, _, _, _, _, -, -, _, _, _, -, -, same⟩ := overrun
      cases same
  · rintro ⟨minor, major, poolCount, constants, byte, rest, fits, ahead, rfl, isUnknown⟩
    refine ⟨_, _, _, (readClass_eq_error_iff (fed _ _ _) rfl).mpr ⟨minor, major, poolCount,
      ⟨headerSize, _⟩, ?_, ⟨rfl, (Nat.zero_add _).symm⟩, .inl ⟨constants, ⟨_, byte :: rest⟩, ahead,
        fits, ⟨rfl, rfl⟩, byte, rest, rfl, (ofByte?_eq_none_iff byte).mpr isUnknown, rfl⟩⟩⟩
    exact Nat.lt_of_le_of_lt (Nat.zero_le _) ahead

theorem readClass_eq_overrun_iff {data : Bytes} :
    (∃ place offset declared start left,
      readClass data = .error (.truncated place offset (.overrun declared start left))) ↔
      OverrunsAttribute data := by
  have fed : ∀ place offset declared start left, ¬ DecodeError.IsStarvation
      (.truncated place offset (.overrun declared start left)) := by
    rintro place offset declared start left ⟨_, _, same⟩
    cases same
  constructor
  · rintro ⟨place, offset, declared, start, left, failed⟩
    obtain ⟨minor, major, poolCount, next, poolDeclared, header, unknown | overrun⟩ :=
      (readClass_eq_error_iff (fed place offset declared start left) rfl).mp failed
    · obtain ⟨constants, last, -, -, -, byte, rest, -, -, same⟩ := unknown
      cases same
    · obtain ⟨front, middle, leadsToFields, first, owner, index, before, last, leads, second, name,
        length, rest, shape, short, -⟩ := overrun
      refine ⟨minor, major, poolCount, front, owner, index, before, name, length, rest,
        poolDeclared, leadsToFields, leads, ?_, short⟩
      rw [← shape, ← second.1, ← first.1]
      exact header.1
  · rintro ⟨minor, major, poolCount, front, owner, index, before, name, length, rest, poolDeclared,
      leadsToFields, leads, rfl, short⟩
    exact ⟨_, _, _, _, _, (readClass_eq_error_iff (fed _ _ _ _ _) rfl).mpr
      ⟨minor, major, poolCount, ⟨headerSize, _⟩, poolDeclared, ⟨rfl, (Nat.zero_add _).symm⟩,
        .inr ⟨front, ⟨_, _⟩, leadsToFields, ⟨rfl, rfl⟩, owner, index, before, ⟨_, _⟩, leads,
          ⟨rfl, rfl⟩, name, length, rest, rfl, short, rfl⟩⟩⟩

/-! ## Causes of failures -/

/-- The conditions that refused class files are told apart by. -/
def decodeCauses : List Cause :=
  [.malformedHeader, .unexpectedEnd, .unknownTag, .trailingData, .invalidSyntax]

/-- How missing data shows in a stream. -/
def streamCauses : List Cause := [.streamEnd, .streamOverrun]

/-- The condition that an error is told apart by. -/
def DecodeError.ownCause : DecodeError → Cause
  | .shortHeader _ | .badMagic _ | .emptyPool => .malformedHeader
  | .truncated _ _ _ => .unexpectedEnd
  | .unknownTag _ _ _ => .unknownTag
  | .trailingData _ _ => .trailingData
  | .invalidDescriptor _ _ _ => .invalidSyntax

/-- The stream conditions in the chain of an error. -/
def DecodeError.ownStreamCauses : DecodeError → List Cause
  | .truncated _ _ .endOfData => [.streamEnd]
  | .truncated _ _ (.overrun _ _ _) => [.streamOverrun]
  | _ => []

theorem DecodeError.filter_decodeCauses (error : DecodeError) :
    decodeCauses.filter error.toFault.has = [error.ownCause] := by
  cases error with
  | truncated place offset reason => cases reason <;> rfl
  | _ => rfl

theorem DecodeError.filter_streamCauses (error : DecodeError) :
    streamCauses.filter error.toFault.has = error.ownStreamCauses := by
  cases error with
  | truncated place offset reason => cases reason <;> rfl
  | _ => rfl

theorem Fault.mem_filter_has {fault : Fault} {causes : List Cause} {cause : Cause} :
    cause ∈ causes.filter fault.has ↔ cause ∈ causes ∧ fault.has cause = true :=
  List.mem_filter

theorem existsUnique_of_filter {fault : Fault} {causes : List Cause} {cause : Cause}
    (filtered : causes.filter fault.has = [cause]) :
    ∃! other, other ∈ causes ∧ fault.has other = true := by
  have only : ∀ other, other ∈ causes ∧ fault.has other = true ↔ other = cause := by
    intro other
    rw [← Fault.mem_filter_has, filtered, List.mem_singleton]
  exact ⟨cause, (only cause).mpr rfl, fun other found => (only other).mp found⟩

theorem DecodeError.kind_toFault (error : DecodeError) :
    error.toFault.kind =
      if error.toFault.has .invalidSyntax = true then .invalidDescriptor else .parse := by
  cases error with
  | truncated place offset reason => cases reason <;> rfl
  | _ => rfl

theorem DecodeError.ownStreamCauses_of_unexpectedEnd {error : DecodeError}
    (ended : error.toFault.has .unexpectedEnd = true) :
    ∃ cause, error.ownStreamCauses = [cause] := by
  cases error with
  | truncated place offset reason => cases reason <;> exact ⟨_, rfl⟩
  | _ => cases ended

theorem DecodeError.unexpectedEnd_of_streamCause {error : DecodeError} {cause : Cause}
    (stream : cause ∈ streamCauses) (present : error.toFault.has cause = true) :
    error.toFault.has .unexpectedEnd = true := by
  have found := Fault.mem_filter_has.mpr ⟨stream, present⟩
  rw [error.filter_streamCauses] at found
  cases error with
  | truncated place offset reason => rfl
  | _ => cases found

/-- Where the layout can be read, only a strict decode fails. -/
theorem decode_error_cases {mode : DecodeMode} {data : Bytes} {error : DecodeError}
    (failed : decode mode data = .error error) :
    readClass data = .error error ∨
      mode = .strict ∧ ((∃ count offset, error = .trailingData count offset) ∨
        ∃ method offset reason, error = .invalidDescriptor method offset reason) := by
  cases read : readClass data with
  | error other =>
      rw [decode_of_read_error mode read] at failed
      cases failed
      exact .inl rfl
  | ok found =>
      obtain ⟨raw, after⟩ := found
      cases mode with
      | bestEffort =>
          rw [decode_bestEffort_of_read read] at failed
          cases failed
      | strict =>
          refine .inr ⟨rfl, ?_⟩
          by_cases consumed : after.remaining = 0
          · cases invalid : firstInvalidDescriptor? (raw.interpret after).pool 0
                (raw.interpret after).methods with
            | none =>
                rw [decode_strict_of_clean read consumed invalid] at failed
                cases failed
            | some first =>
                obtain ⟨index, method, reason⟩ := first
                rw [decode_strict_of_invalid read consumed invalid] at failed
                cases failed
                exact .inr ⟨_, _, _, rfl⟩
          · rw [decode_strict_of_trailing read consumed] at failed
            cases failed
            exact .inl ⟨_, _, rfl⟩

theorem DecodeError.has_iff {error : DecodeError} {cause : Cause}
    (listed : cause ∈ decodeCauses) :
    error.toFault.has cause = true ↔ error.ownCause = cause := by
  rw [← and_iff_right (b := error.toFault.has cause = true) listed, ← Fault.mem_filter_has,
    error.filter_decodeCauses, List.mem_singleton, eq_comm]

/-- Reading the layout never fails for what only a strict decode refuses. -/
theorem readClass_ownCause {data : Bytes} {error : DecodeError}
    (failed : readClass data = .error error) :
    error.ownCause ≠ .trailingData ∧ error.ownCause ≠ .invalidSyntax := by
  by_cases fed : error.IsStarvation
  · obtain ⟨place, offset, rfl⟩ := fed
    exact ⟨nofun, nofun⟩
  · cases headed : error.toFault.has .malformedHeader with
    | true =>
        rw [(DecodeError.has_iff (by decide)).mp headed]
        exact ⟨nofun, nofun⟩
    | false =>
        obtain ⟨_, _, _, _, -, -, unknown | overrun⟩ :=
          (readClass_eq_error_iff fed headed).mp failed
        · obtain ⟨_, _, _, _, _, _, _, _, _, rfl⟩ := unknown
          exact ⟨nofun, nofun⟩
        · obtain ⟨_, _, _, _, _, _, _, _, _, _, _, _, _, _, _, rfl⟩ := overrun
          exact ⟨nofun, nofun⟩

theorem readClass_error_of_decode {mode : DecodeMode} {data : Bytes} {error : DecodeError}
    (failed : decode mode data = .error error) (consumed : error.ownCause ≠ .trailingData)
    (described : error.ownCause ≠ .invalidSyntax) : readClass data = .error error := by
  rcases decode_error_cases failed with unread | ⟨-, ⟨_, _, rfl⟩ | ⟨_, _, _, rfl⟩⟩
  · exact unread
  · exact absurd rfl consumed
  · exact absurd rfl described

theorem DecodeError.eq_of_streamOverrun {error : DecodeError}
    (overrun : error.toFault.has .streamOverrun = true) :
    ∃ place offset declared start left,
      error = .truncated place offset (.overrun declared start left) := by
  cases error with
  | truncated place offset reason =>
      cases reason with
      | endOfData => cases overrun
      | overrun declared start left => exact ⟨place, offset, declared, start, left, rfl⟩
  | _ => cases overrun

theorem DecodeError.eq_of_unknownTag {error : DecodeError}
    (unknown : error.toFault.has .unknownTag = true) :
    ∃ slot offset byte, error = .unknownTag slot offset byte := by
  cases error with
  | unknownTag slot offset byte => exact ⟨slot, offset, byte, rfl⟩
  | truncated place offset reason => cases reason <;> cases unknown
  | _ => cases unknown

/-- Every failure of a decode has one of five causes, and its kind follows from it. Trailing bytes
and invalid descriptors fail only a strict decode. Missing data shows in one of two ways: as an
overrun exactly when an attribute that is reached declares more bytes than are left. A tag is
unknown exactly when the pool reaches a constant with none of the seventeen. -/
theorem decode_failure_has_one_cause {mode : DecodeMode} {data : Bytes} {error : DecodeError}
    (failed : decode mode data = .error error) :
    (∃! cause, cause ∈ decodeCauses ∧ error.toFault.has cause = true) ∧
    (error.toFault.kind =
      if error.toFault.has .invalidSyntax = true then .invalidDescriptor else .parse) ∧
    (error.toFault.has .trailingData = true ∨ error.toFault.has .invalidSyntax = true →
      mode = .strict) ∧
    (error.toFault.has .unexpectedEnd = true →
      ∃! cause, cause ∈ streamCauses ∧ error.toFault.has cause = true) ∧
    (∀ cause ∈ streamCauses, error.toFault.has cause = true →
      error.toFault.has .unexpectedEnd = true) ∧
    (error.toFault.has .streamOverrun = true ↔ OverrunsAttribute data) ∧
    (error.toFault.has .unknownTag = true ↔ MeetsUnknownTag data) := by
  refine ⟨existsUnique_of_filter error.filter_decodeCauses, error.kind_toFault, ?_, ?_, ?_, ?_, ?_⟩
  · intro present
    rcases decode_error_cases failed with unread | ⟨strict, -⟩
    · obtain ⟨noTrailing, noInvalid⟩ := readClass_ownCause unread
      rcases present with trailing | invalid
      · exact absurd ((DecodeError.has_iff (by decide)).mp trailing) noTrailing
      · exact absurd ((DecodeError.has_iff (by decide)).mp invalid) noInvalid
    · exact strict
  · intro ended
    obtain ⟨cause, only⟩ := DecodeError.ownStreamCauses_of_unexpectedEnd ended
    exact existsUnique_of_filter (error.filter_streamCauses.trans only)
  · intro cause stream present
    exact DecodeError.unexpectedEnd_of_streamCause stream present
  · rw [← readClass_eq_overrun_iff]
    constructor
    · intro overrun
      obtain ⟨place, offset, declared, start, left, rfl⟩ := DecodeError.eq_of_streamOverrun overrun
      exact ⟨place, offset, declared, start, left,
        readClass_error_of_decode failed Cause.noConfusion Cause.noConfusion⟩
    · rintro ⟨place, offset, declared, start, left, unread⟩
      cases (decode_of_read_error mode unread).symm.trans failed
      rfl
  · rw [← readClass_eq_unknownTag_iff]
    constructor
    · intro unknown
      obtain ⟨slot, offset, byte, rfl⟩ := DecodeError.eq_of_unknownTag unknown
      exact ⟨slot, offset, byte,
        readClass_error_of_decode failed Cause.noConfusion Cause.noConfusion⟩
    · rintro ⟨slot, offset, byte, unread⟩
      cases (decode_of_read_error mode unread).symm.trans failed
      rfl

/-- A method with the first of two attributes that it announces. -/
def openMethod : Member := ⟨1, 1, 1, [⟨7, [1, 2]⟩]⟩

/-- A class with one method. The second attribute of that method declares five bytes, and one is
left. -/
def overrunningClass : Bytes :=
  encodeHeader 0 52 1 ++ ((bytesOfU2 0x21 ++ (bytesOfU2 0 ++ (bytesOfU2 0 ++
    encodeTable bytesOfU2 []))) ++ ((encodeTable Member.encode [] ++
      (encodeTableUpTo Member.encode 1 [] ++ openMethod.encodeUpTo 2)) ++
        (bytesOfU2 9 ++ (bytesOfU4 5 ++ [0xB1]))))

theorem overrunningClass_overruns : OverrunsAttribute overrunningClass := by
  have fills : FillsSlots (UInt16.toNat 1) 1 [] := fillsSlots_nil.mpr (by decide)
  have front : LeadsToFields 1 _ := @LeadsToFields.intro 1 [] [] 0x21 0 0 fills nofun (by decide)
  have announced : LeavesItem Attribute.Fits (UInt16.toNat 2) openMethod.attributes :=
    ⟨by decide, by simp [openMethod, Attribute.Fits]⟩
  have leads := @LeadsToAttribute.method 1 2 [] [] openMethod ⟨by decide, nofun⟩
    ⟨by decide, nofun⟩ announced
  exact ⟨0, 52, 1, _, _, _, _, 9, 5, [0xB1], by decide, front, leads, rfl, by decide⟩

theorem decode_failure_has_one_cause_overrun :
    ∃ error, decode .strict overrunningClass = .error error ∧
      error.toFault.has .streamOverrun = true ∧ error.toFault.has .unexpectedEnd = true ∧
      error.toFault.kind = .parse := by
  obtain ⟨place, offset, declared, start, left, unread⟩ :=
    readClass_eq_overrun_iff.mpr overrunningClass_overruns
  have failed := decode_of_read_error .strict unread
  obtain ⟨-, kind, -, -, ended, overruns, -⟩ := decode_failure_has_one_cause failed
  have present := overruns.mpr overrunningClass_overruns
  exact ⟨_, failed, present, ended _ (by decide) present, kind⟩

end ClassAudit
