import ClassAudit.ClassFile.Decode
import ClassAudit.Proofs.PoolProperties

/-!
# Properties of decoding

A best-effort decode accepts exactly the written classes, with anything behind them, and
shows what was written. A strict decode refuses two kinds of its diagnostics. Neither looks
past what it reads.
-/

set_option autoImplicit false

namespace ClassAudit

/-! ## Readings and decodes -/

theorem decode_bestEffort_of_read {data : Bytes} {raw : RawClass} {after : Cursor}
    (read : readClass data = .ok (raw, after)) :
    decode .bestEffort data = .ok (raw.interpret after) := by
  simp only [decode, read, bind, Except.bind]
  rfl

theorem decode_strict_of_read {data : Bytes} {raw : RawClass} {after : Cursor}
    (read : readClass data = .ok (raw, after)) :
    decode .strict data =
      match strictRefusal? (raw.interpret after) after with
      | some refusal => .error refusal
      | none => .ok (raw.interpret after) := by
  simp only [decode, read, bind, Except.bind]
  cases strictRefusal? (raw.interpret after) after <;> rfl

theorem decode_of_read_error {data : Bytes} {error : DecodeError} (mode : DecodeMode)
    (failed : readClass data = .error error) : decode mode data = .error error := by
  simp only [decode, failed, bind, Except.bind]

theorem read_of_decode {mode : DecodeMode} {data : Bytes} {file : ClassFile}
    (decoded : decode mode data = .ok file) :
    ∃ raw after, readClass data = .ok (raw, after) ∧ file = raw.interpret after := by
  cases read : readClass data with
  | error error =>
      rw [decode_of_read_error mode read] at decoded
      cases decoded
  | ok found =>
      obtain ⟨raw, after⟩ := found
      refine ⟨raw, after, rfl, ?_⟩
      cases mode with
      | bestEffort =>
          rw [decode_bestEffort_of_read read] at decoded
          cases decoded
          rfl
      | strict =>
          rw [decode_strict_of_read read] at decoded
          cases refused : strictRefusal? (raw.interpret after) after with
          | some refusal =>
              rw [refused] at decoded
              cases decoded
          | none =>
              rw [refused] at decoded
              cases decoded
              rfl

theorem decode_encode {raw : RawClass} (fits : raw.Fits) (trailing : Bytes) :
    decode .bestEffort (raw.encode ++ trailing) =
      .ok (raw.interpret ⟨raw.encode.length, trailing⟩) :=
  decode_bestEffort_of_read (readClass_encode fits trailing)

/-! ## Diagnostics -/

theorem versionDiagnostics_classLevel {major : UInt16} {diagnostic : Diagnostic}
    (member : diagnostic ∈ versionDiagnostics major) :
    diagnostic.kind = .version ∧ diagnostic.method? = none := by
  unfold versionDiagnostics at member
  cases known : release? major with
  | some release => simp [known] at member
  | none =>
      simp only [known, List.mem_singleton] at member
      subst member
      exact ⟨rfl, rfl⟩

theorem versionDiagnostics_length_le (major : UInt16) : (versionDiagnostics major).length ≤ 1 := by
  unfold versionDiagnostics
  cases release? major with
  | some release => exact Nat.zero_le 1
  | none => exact Nat.le_refl 1

theorem trailingDiagnostics_mk (position : Nat) (rest : Bytes) :
    trailingDiagnostics ⟨position, rest⟩ =
      if rest = [] then [] else
        [⟨.trailing, position, none, decimal rest.length ++ " trailing bytes ignored"⟩] := by
  simp [trailingDiagnostics, Cursor.remaining]

theorem descriptorDiagnostics_methodLevel {pool : Pool} {index : Nat} {methods : List Method}
    {diagnostic : Diagnostic} (member : diagnostic ∈ descriptorDiagnostics pool index methods) :
    (diagnostic.kind = .unresolved ∨ diagnostic.kind = .descriptor) ∧
      diagnostic.method? ≠ none := by
  induction methods generalizing index with
  | nil => simp [descriptorDiagnostics] at member
  | cons method methods ih =>
      simp only [descriptorDiagnostics] at member
      cases judged : descriptorFinding? pool method with
      | none =>
          simp only [judged] at member
          exact ih member
      | some finding =>
          simp only [judged, List.mem_cons] at member
          rcases member with rfl | member
          · cases finding with
            | unresolved reason => exact ⟨.inl rfl, nofun⟩
            | invalid reason => exact ⟨.inr rfl, nofun⟩
          · exact ih member

/-- The first descriptor diagnostic is that of the first method with an invalid
descriptor; methods whose descriptor does not resolve are passed over. -/
theorem find?_descriptorDiagnostics (pool : Pool) (index : Nat) (methods : List Method) :
    (descriptorDiagnostics pool index methods).find? (·.kind = .descriptor) =
      (firstInvalidDescriptor? pool index methods).map fun (position, method, reason) =>
        (DescriptorFinding.invalid reason).diagnostic position method := by
  induction methods generalizing index with
  | nil => rfl
  | cons method methods ih =>
      simp only [descriptorDiagnostics, firstInvalidDescriptor?]
      cases descriptorFinding? pool method with
      | none => exact ih (index + 1)
      | some finding =>
          cases finding with
          | unresolved reason => exact ih (index + 1)
          | invalid reason => rfl

theorem RawClass.interpret_diagnostics (raw : RawClass) (after : Cursor) :
    (raw.interpret after).diagnostics = versionDiagnostics raw.major ++ trailingDiagnostics after ++
      descriptorDiagnostics (raw.interpret after).pool 0 (raw.interpret after).methods := rfl

theorem filter_trailing_interpret (raw : RawClass) (after : Cursor) :
    (raw.interpret after).diagnostics.filter (·.kind = .trailing) =
      trailingDiagnostics after := by
  have version : (versionDiagnostics raw.major).filter (·.kind = .trailing) = [] := by
    apply List.filter_eq_nil_iff.mpr
    intro diagnostic member
    simp [(versionDiagnostics_classLevel member).1]
  have descriptor : (descriptorDiagnostics (raw.interpret after).pool 0
      (raw.interpret after).methods).filter (·.kind = .trailing) = [] := by
    apply List.filter_eq_nil_iff.mpr
    intro diagnostic member
    rcases (descriptorDiagnostics_methodLevel member).1 with kind | kind <;> simp [kind]
  have trailing : (trailingDiagnostics after).filter (·.kind = .trailing) =
      trailingDiagnostics after := by
    unfold trailingDiagnostics
    split <;> rfl
  rw [raw.interpret_diagnostics, List.filter_append, List.filter_append, version, trailing,
    descriptor, List.nil_append, List.append_nil]

theorem find?_descriptor_interpret (raw : RawClass) (after : Cursor) :
    (raw.interpret after).diagnostics.find? (·.kind = .descriptor) =
      (firstInvalidDescriptor? (raw.interpret after).pool 0 (raw.interpret after).methods).map
        fun (position, method, reason) =>
          (DescriptorFinding.invalid reason).diagnostic position method := by
  have version : (versionDiagnostics raw.major).find? (·.kind = .descriptor) = none := by
    apply List.find?_eq_none.mpr
    intro diagnostic member
    simp [(versionDiagnostics_classLevel member).1]
  have trailing : (trailingDiagnostics after).find? (·.kind = .descriptor) = none := by
    unfold trailingDiagnostics
    split <;> rfl
  rw [← find?_descriptorDiagnostics, raw.interpret_diagnostics, List.find?_append,
    List.find?_append, version, trailing, Option.none_or, Option.none_or]

theorem exists_trailing_iff (raw : RawClass) (after : Cursor) :
    (∃ diagnostic ∈ (raw.interpret after).diagnostics, diagnostic.kind = .trailing) ↔
      after.remaining ≠ 0 := by
  have filtered := filter_trailing_interpret raw after
  constructor
  · intro found empty
    obtain ⟨diagnostic, member, kind⟩ := found
    rw [trailingDiagnostics, if_pos empty] at filtered
    exact absurd (by simpa using kind) (List.filter_eq_nil_iff.mp filtered diagnostic member)
  · intro nonempty
    rw [trailingDiagnostics, if_neg nonempty] at filtered
    have member := filtered ▸ List.mem_singleton_self _
    obtain ⟨present, kind⟩ := List.mem_filter.mp member
    exact ⟨_, present, of_decide_eq_true kind⟩

/-! ## Accepted classes -/

theorem getElem?_memberOffsets (start : Nat) (members : List Member) (index : Nat) :
    (memberOffsets start members)[index]? =
      members[index]?.map fun _ => start + ((members.take index).flatMap Member.encode).length := by
  induction members generalizing start index with
  | nil => rfl
  | cons member members ih =>
      cases index with
      | zero => rfl
      | succ index =>
          simp only [memberOffsets, List.getElem?_cons_succ, ih, List.take_succ_cons,
            List.flatMap_cons, List.length_append, Nat.add_assoc]

/-- What a class file shows of a written class: all of it but the contents of fields and
attributes. Texts are decoded, and every constant and method is found where it was written. -/
structure ClassFile.Shows (file : ClassFile) (raw : RawClass) : Prop where
  minor : file.minor = raw.minor
  major : file.major = raw.major
  poolCount : file.pool.count = raw.poolCount.toNat
  poolEntries : file.pool.entries =
    (placedFrom 1 raw.constants).map fun entry => (entry.1.toUInt16, entry.2.interpreted)
  access : file.access = raw.access
  thisClass : file.thisClass = raw.thisClass
  superClass : file.superClass = raw.superClass
  interfaces : file.interfaces = raw.interfaces
  fieldCount : file.fieldCount = raw.fields.length
  methods : ∀ index, file.methods[index]? = raw.methods[index]?.map fun member =>
    Method.mk
      (raw.encodeBeforeMethods.length + ((raw.methods.take index).flatMap Member.encode).length)
      member.access member.name member.descriptor member.attributes.length
  attributeCount : file.attributeCount = raw.attributes.length

theorem RawClass.Fits.interpret_shows {raw : RawClass} (fits : raw.Fits) (after : Cursor) :
    (raw.interpret after).Shows raw where
  minor := rfl
  major := rfl
  poolCount := Pool.count_ofConstants fits.poolDeclared fits.fillsSlots
  poolEntries := Pool.entries_ofConstants fits.poolDeclared fits.fillsSlots
  access := rfl
  thisClass := rfl
  superClass := rfl
  interfaces := rfl
  fieldCount := rfl
  methods := by
    intro index
    change raw.methodTable[index]? = _
    rw [RawClass.methodTable, List.getElem?_map, List.zip, List.getElem?_zipWith,
      RawClass.methodOffsets, getElem?_memberOffsets]
    cases raw.methods[index]? <;> rfl
  attributeCount := rfl

/-- Decoding accepts exactly the written classes with anything behind them. The class and what
follows it are determined by the data, and the result shows the class. -/
theorem decode_accepts_exactly_layout (data : Bytes) :
    ((∃ file, decode .bestEffort data = .ok file) ↔
      ∃ raw trailing, RawClass.Fits raw ∧ data = raw.encode ++ trailing) ∧
    ∀ raw trailing, RawClass.Fits raw → data = raw.encode ++ trailing →
      (∀ otherRaw otherTrailing, RawClass.Fits otherRaw →
        data = otherRaw.encode ++ otherTrailing → otherRaw = raw ∧ otherTrailing = trailing) ∧
      ∃ file, decode .bestEffort data = .ok file ∧ file.Shows raw ∧
        file.diagnostics.filter (·.kind = .trailing) =
          if trailing = [] then [] else
            [⟨.trailing, raw.encode.length, none,
              decimal trailing.length ++ " trailing bytes ignored"⟩] := by
  refine ⟨⟨?_, ?_⟩, ?_⟩
  · intro accepted
    obtain ⟨file, decoded⟩ := accepted
    obtain ⟨raw, after, read, -⟩ := read_of_decode decoded
    obtain ⟨fits, shape, -⟩ := readClass_eq_ok read
    exact ⟨raw, after.rest, fits, shape⟩
  · intro laidOut
    obtain ⟨raw, trailing, fits, shape⟩ := laidOut
    exact ⟨_, shape ▸ decode_encode fits trailing⟩
  · intro raw trailing fits shape
    subst shape
    refine ⟨?_, _, decode_encode fits trailing, fits.interpret_shows _, ?_⟩
    · intro otherRaw otherTrailing otherFits same
      exact RawClass.encode_append_injective otherFits fits same.symm
    · rw [filter_trailing_interpret, trailingDiagnostics_mk]

/-- A class whose only constant is a `long` in the last slot, of a version without a release,
and with a method whose descriptor does not resolve. -/
def overhangingClass : RawClass :=
  { minor := 0, major := 70, poolCount := 2, constants := [.long 7], access := 0x0021,
    thisClass := 0, superClass := 0, interfaces := [3, 4], fields := [⟨2, 5, 6, []⟩],
    methods := [⟨1, 1, 1, [⟨9, [0xB1]⟩]⟩], attributes := [⟨8, []⟩] }

theorem decode_accepts_exactly_layout_overhanging :
    overhangingClass.Fits ∧
      ∃ file, decode .bestEffort (overhangingClass.encode ++ [0]) = .ok file ∧
        file.Shows overhangingClass := by
  have fits : overhangingClass.Fits := by decide
  obtain ⟨-, file, decoded, shown, -⟩ :=
    (decode_accepts_exactly_layout (overhangingClass.encode ++ [0])).2 overhangingClass [0] fits rfl
  exact ⟨fits, file, decoded, shown⟩

/-! ## Strict decoding -/

theorem decode_strict_of_trailing {data : Bytes} {raw : RawClass} {after : Cursor}
    (read : readClass data = .ok (raw, after)) (left : after.remaining ≠ 0) :
    decode .strict data = .error (.trailingData after.remaining after.position) := by
  rw [decode_strict_of_read read, strictRefusal?, if_pos left]

theorem decode_strict_of_invalid {data : Bytes} {raw : RawClass} {after : Cursor}
    {index : Nat} {method : Method} {reason : DescriptorError}
    (read : readClass data = .ok (raw, after)) (consumed : after.remaining = 0)
    (invalid : firstInvalidDescriptor? (raw.interpret after).pool 0 (raw.interpret after).methods =
      some (index, method, reason)) :
    decode .strict data = .error (.invalidDescriptor index method.offset reason) := by
  rw [decode_strict_of_read read, strictRefusal?, if_neg (Classical.not_not.mpr consumed), invalid]
  rfl

theorem decode_strict_of_clean {data : Bytes} {raw : RawClass} {after : Cursor}
    (read : readClass data = .ok (raw, after)) (consumed : after.remaining = 0)
    (clean : firstInvalidDescriptor? (raw.interpret after).pool 0 (raw.interpret after).methods =
      none) :
    decode .strict data = .ok (raw.interpret after) := by
  rw [decode_strict_of_read read, strictRefusal?, if_neg (Classical.not_not.mpr consumed), clean]
  rfl

theorem Fault.summary_classifiedBy {kind : FaultKind} {message : Bytes} {inner : Fault}
    (nonempty : message ≠ []) : (Fault.classifiedBy kind message inner).summary = message := by
  simp only [Fault.summary, Fault.classification?, nonempty, ↓reduceIte]

theorem invalidDescriptor_summary (method offset : Nat) (reason : DescriptorError) :
    (DecodeError.invalidDescriptor method offset reason).toFault.summary =
      "method " ++ decimal method ++ " at offset " ++ decimal offset := by
  refine Fault.summary_classifiedBy ?_
  simp only [List.append_assoc]
  exact List.append_ne_nil_of_left_ne_nil (by decide) _

/-- A strict decode is a best-effort decode that refuses trailing bytes first and then the
first invalid descriptor. Unknown versions and unresolved descriptors stay diagnostics. -/
theorem decode_strict_refuses_two_kinds (data : Bytes) :
    (∀ error, decode .bestEffort data = .error error → decode .strict data = .error error) ∧
    ∀ file, decode .bestEffort data = .ok file →
      ((∃ result, decode .strict data = .ok result) ↔
        ∀ diagnostic ∈ file.diagnostics,
          diagnostic.kind ≠ .trailing ∧ diagnostic.kind ≠ .descriptor) ∧
      (∀ result, decode .strict data = .ok result → result = file) ∧
      ((∃ diagnostic ∈ file.diagnostics, diagnostic.kind = .trailing) →
        ∃ error, decode .strict data = .error error ∧
          error.toFault.has .trailingData = true ∧ error.toFault.kind = .parse) ∧
      ((∀ diagnostic ∈ file.diagnostics, diagnostic.kind ≠ .trailing) →
        ∀ diagnostic, file.diagnostics.find? (·.kind = .descriptor) = some diagnostic →
          ∃ (method offset : Nat) (error : DecodeError),
            diagnostic.method? = some (method : Int) ∧ diagnostic.offset = offset ∧
            decode .strict data = .error error ∧ error.toFault.kind = .invalidDescriptor ∧
            error.toFault.has .invalidSyntax = true ∧
            error.toFault.summary =
              "method " ++ decimal method ++ " at offset " ++ decimal offset) := by
  cases read : readClass data with
  | error error =>
      rw [decode_of_read_error .bestEffort read, decode_of_read_error .strict read]
      exact ⟨fun _ same => same, nofun⟩
  | ok found =>
      obtain ⟨raw, after⟩ := found
      rw [decode_bestEffort_of_read read]
      refine ⟨nofun, ?_⟩
      intro file decoded
      cases decoded
      have trailing := exists_trailing_iff raw after
      have descriptor := find?_descriptor_interpret raw after
      -- bytes that are left decide the error before any descriptor is looked at
      by_cases consumed : after.remaining = 0
      · have noTrailing : ∀ diagnostic ∈ (raw.interpret after).diagnostics,
            diagnostic.kind ≠ .trailing := by
          intro diagnostic member kind
          exact trailing.mp ⟨diagnostic, member, kind⟩ consumed
        cases invalid : firstInvalidDescriptor? (raw.interpret after).pool 0
            (raw.interpret after).methods with
        | none =>
            rw [invalid, Option.map_none] at descriptor
            rw [decode_strict_of_clean read consumed invalid]
            refine ⟨⟨fun _ => ?_, fun _ => ⟨_, rfl⟩⟩, fun _ same => (Except.ok.inj same).symm,
              ?_, ?_⟩
            · intro diagnostic member
              exact ⟨noTrailing diagnostic member,
                by simpa using List.find?_eq_none.mp descriptor diagnostic member⟩
            · intro found
              obtain ⟨diagnostic, member, kind⟩ := found
              exact absurd kind (noTrailing diagnostic member)
            · intro _ diagnostic present
              rw [descriptor] at present
              cases present
        | some first =>
            obtain ⟨index, method, reason⟩ := first
            rw [invalid, Option.map_some] at descriptor
            rw [decode_strict_of_invalid read consumed invalid]
            refine ⟨⟨nofun, fun clean => ?_⟩, nofun, ?_, ?_⟩
            · exact absurd rfl (clean _ (List.mem_of_find?_eq_some descriptor)).2
            · intro found
              obtain ⟨diagnostic, member, kind⟩ := found
              exact absurd kind (noTrailing diagnostic member)
            · intro _ diagnostic present
              rw [descriptor] at present
              cases present
              exact ⟨index, method.offset, _, rfl, rfl, rfl, rfl, rfl,
                invalidDescriptor_summary index method.offset reason⟩
      · obtain ⟨diagnostic, member, kind⟩ := trailing.mpr consumed
        rw [decode_strict_of_trailing read consumed]
        refine ⟨⟨nofun, fun clean => absurd kind (clean diagnostic member).1⟩, nofun, ?_, ?_⟩
        · exact fun _ => ⟨_, rfl, rfl, rfl⟩
        · exact fun noTrailing => absurd kind (noTrailing diagnostic member)

/-! ## Delimitation -/

/-- Where the class attributes end: at the trailing bytes that a decode recorded, or at the end
of the data. -/
def contentEnd (data : Bytes) (file : ClassFile) : Nat :=
  match file.diagnostics.find? (·.kind = .trailing) with
  | some diagnostic => diagnostic.offset.toNat
  | none => data.length

theorem contentEnd_interpret (raw : RawClass) (trailing : Bytes) :
    contentEnd (raw.encode ++ trailing) (raw.interpret ⟨raw.encode.length, trailing⟩) =
      raw.encode.length := by
  have found := congrArg List.head?
    (filter_trailing_interpret raw ⟨raw.encode.length, trailing⟩)
  rw [List.head?_filter, trailingDiagnostics_mk] at found
  rw [contentEnd, found]
  by_cases empty : trailing = []
  · simp [empty]
  · simp [empty]

theorem DecodeError.IsTruncation.unexpectedEnd {error : DecodeError}
    (truncated : error.IsTruncation) :
    error.toFault.has .unexpectedEnd = true ∧ error.toFault.kind = .parse := by
  obtain ⟨place, offset, reason, rfl⟩ := truncated
  exact ⟨rfl, rfl⟩

/-- Decoding is self-delimiting: every cut before the end of the content is refused in both
modes, and whatever stands behind it changes nothing but one diagnostic. -/
theorem decode_self_delimiting {data : Bytes} {file : ClassFile}
    (decoded : decode .bestEffort data = .ok file) :
    (∀ mode count, count < contentEnd data file →
      ∃ error, decode mode (data.take count) = .error error ∧
        (count < 10 → error.toFault.has .malformedHeader = true ∧
          error.toFault.kind = .parse) ∧
        (10 ≤ count → error.toFault.has .unexpectedEnd = true ∧
          error.toFault.kind = .parse)) ∧
    ∃ bare version methods,
      decode .bestEffort (data.take (contentEnd data file)) = .ok bare ∧
      bare.diagnostics = version ++ methods ∧ version.length ≤ 1 ∧
      (∀ diagnostic ∈ version, diagnostic.kind = .version ∧ diagnostic.method? = none) ∧
      (∀ diagnostic ∈ methods, diagnostic.method? ≠ none) ∧
      ∀ trailing, decode .bestEffort (data.take (contentEnd data file) ++ trailing) =
        .ok { bare with
          diagnostics := version ++
            (if trailing = [] then [] else
              [⟨.trailing, contentEnd data file, none,
                decimal trailing.length ++ " trailing bytes ignored"⟩]) ++ methods } := by
  obtain ⟨raw, ⟨position, rest⟩, read, rfl⟩ := read_of_decode decoded
  obtain ⟨fits, rfl, rfl⟩ := readClass_eq_ok read
  rw [contentEnd_interpret, List.take_left]
  constructor
  · intro mode count short
    obtain ⟨error, failed, inHeader, behind⟩ := readClass_take fits short
    rw [List.take_append_of_le_length (Nat.le_of_lt short)]
    refine ⟨error, decode_of_read_error mode failed, ?_, ?_⟩
    · intro ahead
      rw [inHeader ahead]
      exact ⟨rfl, rfl⟩
    · intro reached
      exact (behind reached).unexpectedEnd
  · have whole := decode_encode fits []
    rw [List.append_nil] at whole
    refine ⟨_, versionDiagnostics raw.major,
      descriptorDiagnostics (Pool.ofConstants raw.poolCount raw.constants) 0 raw.methodTable,
      whole, ?_, versionDiagnostics_length_le raw.major,
      fun _ member => versionDiagnostics_classLevel member,
      fun _ member => (descriptorDiagnostics_methodLevel member).2, ?_⟩
    · rw [raw.interpret_diagnostics, trailingDiagnostics_mk, if_pos rfl, List.append_nil]
      rfl
    · intro trailing
      rw [decode_encode fits trailing, ← trailingDiagnostics_mk]
      rfl

theorem decode_self_delimiting_overhanging :
    ∃ file, decode .bestEffort (overhangingClass.encode ++ [0]) = .ok file ∧
      contentEnd (overhangingClass.encode ++ [0]) file = 66 ∧
      ∃ error, decode .strict ((overhangingClass.encode ++ [0]).take 65) = .error error ∧
        error.toFault.has .unexpectedEnd = true := by
  have decoded := decode_encode (by decide : overhangingClass.Fits) [0]
  have ends := contentEnd_interpret overhangingClass [0]
  have size : overhangingClass.encode.length = 66 := by decide
  obtain ⟨error, failed, -, truncated⟩ :=
    (decode_self_delimiting decoded).1 .strict 65 (by rw [ends, size]; decide)
  exact ⟨_, decoded, ends.trans size, error, failed, (truncated (by decide)).1⟩

end ClassAudit
