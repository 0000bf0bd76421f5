import ClassAudit.Proofs.DecodeProperties
import ClassAudit.Proofs.DescriptorProperties
import ClassAudit.Rule.Evaluation

/-!
# Findings about method descriptors

Decoding records what is wrong with the descriptors of a class, and the rule on the number
of parameters meets the same descriptors again. Both classify every method alike and say the
same about it.
-/

set_option autoImplicit false

namespace ClassAudit

/-! ## Failed lookups -/

theorem LookupError.toFault_classified (error : LookupError) :
    ∃ kind message inner, error.toFault = .classifiedBy kind message inner ∧
      (kind = .notFound ∨ kind = .invalidFormat) ∧ message ≠ [] := by
  cases error with
  | outOfRange index count =>
      refine ⟨_, _, _, rfl, .inl rfl, ?_⟩
      simp only [List.append_assoc]
      exact List.append_ne_nil_of_left_ne_nil (by decide) _
  | upperHalf index owner =>
      refine ⟨_, _, _, rfl, .inl rfl, ?_⟩
      simp only [List.append_assoc]
      exact List.append_ne_nil_of_left_ne_nil (by decide) _
  | wrongKind index found wanted =>
      refine ⟨_, _, _, rfl, .inr rfl, ?_⟩
      simp only [List.append_assoc]
      exact List.append_ne_nil_of_left_ne_nil (by decide) _

/-- The name of the method stays out of the message of its violation. -/
theorem MethodError.toViolation_message (error : MethodError) :
    error.toViolation.message = error.reason.toFault.summary := by
  obtain ⟨kind, message, inner, shape, -, nonempty⟩ := error.reason.toFault_classified
  simp only [MethodError.toViolation, MethodError.toFault, shape, Fault.summary,
    Fault.classification?, nonempty, ↓reduceIte]

theorem MethodError.toViolation_kind (error : MethodError) :
    error.toViolation.kind = .notFound ∨ error.toViolation.kind = .invalidFormat := by
  obtain ⟨kind, message, inner, shape, known, -⟩ := error.reason.toFault_classified
  simpa only [MethodError.toViolation, MethodError.toFault, shape, Fault.kind,
    Fault.classification?] using known

theorem MethodError.toViolation_kind_ne (error : MethodError) :
    error.toViolation.kind ≠ .invalidDescriptor := by
  intro kind
  rcases error.toViolation_kind with known | known <;> rw [known] at kind <;> cases kind

/-! ## Diagnostics of a method table -/

theorem DescriptorFinding.diagnostic_method? (finding : DescriptorFinding) (index : Nat)
    (method : Method) : (finding.diagnostic index method).method? = some (index : Int) := by
  cases finding <;> rfl

theorem DescriptorFinding.diagnostic_offset (finding : DescriptorFinding) (index : Nat)
    (method : Method) : (finding.diagnostic index method).offset = method.offset := by
  cases finding <;> rfl

theorem mem_descriptorDiagnostics {pool : Pool} {start : Nat} {methods : List Method}
    {diagnostic : Diagnostic} (member : diagnostic ∈ descriptorDiagnostics pool start methods) :
    ∃ index method finding, methods[index]? = some method ∧
      diagnostic = DescriptorFinding.diagnostic (start + index) method finding := by
  induction methods generalizing start with
  | nil => cases member
  | cons method methods ih =>
      have later : diagnostic ∈ descriptorDiagnostics pool (start + 1) methods →
          ∃ index found finding, (method :: methods)[index]? = some found ∧
            diagnostic = DescriptorFinding.diagnostic (start + index) found finding := by
        intro member
        obtain ⟨index, found, finding, present, shape⟩ := ih member
        exact ⟨index + 1, found, finding, present, by rw [shape, Nat.add_assoc, Nat.add_comm 1]⟩
      simp only [descriptorDiagnostics] at member
      cases judged : descriptorFinding? pool method with
      | none =>
          rw [judged] at member
          exact later member
      | some finding =>
          rw [judged] at member
          rcases List.mem_cons.mp member with rfl | member
          · exact ⟨0, method, finding, rfl, rfl⟩
          · exact later member

theorem descriptorDiagnostics_increasing (pool : Pool) (start : Nat) (methods : List Method) :
    (descriptorDiagnostics pool start methods).Pairwise fun earlier later =>
      ∃ left right : Nat, earlier.method? = some (left : Int) ∧
        later.method? = some (right : Int) ∧ left < right := by
  induction methods generalizing start with
  | nil => exact .nil
  | cons method methods ih =>
      simp only [descriptorDiagnostics]
      cases descriptorFinding? pool method with
      | none => exact ih (start + 1)
      | some finding =>
          refine .cons ?_ (ih (start + 1))
          intro later member
          obtain ⟨index, found, reason, -, rfl⟩ := mem_descriptorDiagnostics member
          exact ⟨start, start + 1 + index, finding.diagnostic_method? _ _,
            reason.diagnostic_method? _ _, by omega⟩

/-- The findings about one method are its own: those of other methods carry other indices. -/
theorem filter_descriptorDiagnostics (pool : Pool) {methods : List Method} {index : Nat}
    {method : Method} (start : Nat) (present : methods[index]? = some method) :
    (descriptorDiagnostics pool start methods).filter
        (·.method? = some ((start + index : Nat) : Int)) =
      (descriptorFinding? pool method).toList.map
        (DescriptorFinding.diagnostic (start + index) method) := by
  induction methods generalizing start index with
  | nil => cases present
  | cons first methods ih =>
      simp only [descriptorDiagnostics]
      cases index with
      | zero =>
          cases present
          have others : (descriptorDiagnostics pool (start + 1) methods).filter
              (·.method? = some ((start + 0 : Nat) : Int)) = [] := by
            refine List.filter_eq_nil_iff.mpr ?_
            intro diagnostic member
            obtain ⟨index, found, finding, -, rfl⟩ := mem_descriptorDiagnostics member
            rw [finding.diagnostic_method?]
            simp only [Option.some.injEq, decide_eq_true_eq]
            omega
          cases descriptorFinding? pool method with
          | none => exact others
          | some finding =>
              rw [List.filter_cons_of_pos (by simp [finding.diagnostic_method?]), others]
              rfl
      | succ index =>
          have rest := ih (start + 1) present
          rw [Nat.add_assoc, Nat.add_comm 1] at rest
          cases descriptorFinding? pool first with
          | none => exact rest
          | some finding =>
              rw [List.filter_cons_of_neg, rest]
              rw [finding.diagnostic_method?]
              simp only [Option.some.injEq, decide_eq_true_eq]
              omega

/-- What the diagnostics about a method are: one for a descriptor that does not resolve, one for
a descriptor that resolves and does not parse, and none otherwise. -/
inductive Method.Diagnosed (pool : Pool) (index : Nat) (method : Method) : List Diagnostic → Prop
  | unresolved {reason : LookupError} (failed : pool.utf8 method.descriptor = .error reason) :
      Diagnosed pool index method
        [⟨.unresolved, method.offset, some index, "descriptor: " ++ reason.toFault.summary⟩]
  | invalid {text : Bytes} {reason : DescriptorError}
      (resolved : pool.utf8 method.descriptor = .ok text)
      (rejected : MethodDescriptor.parse text = .error reason) :
      Diagnosed pool index method
        [⟨.descriptor, method.offset, some index, reason.toFault.message⟩]
  | clean {text : Bytes} {parsed : MethodDescriptor}
      (resolved : pool.utf8 method.descriptor = .ok text)
      (accepted : MethodDescriptor.parse text = .ok parsed) : Diagnosed pool index method []

theorem diagnosed_of_finding (pool : Pool) (index : Nat) (method : Method) :
    method.Diagnosed pool index ((descriptorFinding? pool method).toList.map
      (DescriptorFinding.diagnostic index method)) := by
  unfold descriptorFinding?
  cases resolved : pool.utf8 method.descriptor with
  | error reason => exact .unresolved resolved
  | ok text =>
      cases parsed : MethodDescriptor.parse text with
      | error reason =>
          simp only [parsed]
          exact .invalid resolved parsed
      | ok descriptor =>
          simp only [parsed]
          exact .clean resolved parsed

theorem filter_method_classLevel {diagnostics : List Diagnostic} (index : Nat)
    (classLevel : ∀ diagnostic ∈ diagnostics, diagnostic.method? = none) :
    diagnostics.filter (·.method? = some (index : Int)) = [] := by
  refine List.filter_eq_nil_iff.mpr ?_
  intro diagnostic member
  simp [classLevel diagnostic member]

theorem trailingDiagnostics_classLevel {after : Cursor} {diagnostic : Diagnostic}
    (member : diagnostic ∈ trailingDiagnostics after) : diagnostic.method? = none := by
  unfold trailingDiagnostics at member
  split at member
  · cases member
  · rw [List.mem_singleton] at member
    rw [member]

theorem versionDiagnostics_eq_if (major : UInt16) :
    versionDiagnostics major = if (release? major).isNone then
      [⟨.version, 6, none, "unknown major version " ++ decimal major.toNat⟩] else [] := by
  unfold versionDiagnostics
  cases release? major <;> rfl

/-- The diagnostics of a whole class about one of its methods. -/
theorem RawClass.interpret_diagnosed (raw : RawClass) (after : Cursor) {index : Nat}
    {method : Method} (present : (raw.interpret after).methods[index]? = some method) :
    method.Diagnosed (raw.interpret after).pool index
      ((raw.interpret after).diagnostics.filter (·.method? = some (index : Int))) := by
  have own := filter_descriptorDiagnostics (raw.interpret after).pool 0 present
  rw [Nat.zero_add] at own
  rw [raw.interpret_diagnostics, List.filter_append, List.filter_append,
    filter_method_classLevel index fun _ member => (versionDiagnostics_classLevel member).2,
    filter_method_classLevel index fun _ member => trailingDiagnostics_classLevel member,
    List.nil_append, List.nil_append, own]
  exact diagnosed_of_finding _ index method

/-! ## The rule on the number of parameters -/

theorem argumentViolation?_of_unresolved {file : ClassFile} {method : Method} {name : Bytes}
    {reason : LookupError} (limit : UInt8) (named : file.methodName method = .ok name)
    (failed : file.pool.utf8 method.descriptor = .error reason) :
    argumentViolation? limit file method = some (MethodError.mk name reason).toViolation := by
  simp only [argumentViolation?, ClassFile.resolveMethod, named, failed, bind, Except.bind,
    Except.mapError]

theorem argumentViolation?_of_invalid {file : ClassFile} {method : Method} {name text : Bytes}
    {reason : DescriptorError} (limit : UInt8) (named : file.methodName method = .ok name)
    (resolved : file.pool.utf8 method.descriptor = .ok text)
    (rejected : MethodDescriptor.parse text = .error reason) :
    argumentViolation? limit file method =
      some ⟨name, reason.toFault.message, .invalidDescriptor⟩ := by
  simp only [argumentViolation?, ClassFile.resolveMethod, named, resolved, bind, Except.bind,
    Except.mapError, pure, Except.pure, paramCount_of_parse_error rejected]

theorem argumentViolation?_of_clean {file : ClassFile} {method : Method} {name text : Bytes}
    {parsed : MethodDescriptor} {violation : Violation} {limit : UInt8}
    (named : file.methodName method = .ok name)
    (resolved : file.pool.utf8 method.descriptor = .ok text)
    (accepted : MethodDescriptor.parse text = .ok parsed)
    (reported : argumentViolation? limit file method = some violation) :
    violation.kind = .ruleCheck := by
  simp only [argumentViolation?, ClassFile.resolveMethod, named, resolved, bind, Except.bind,
    Except.mapError, pure, Except.pure, paramCount_of_parse accepted] at reported
  split at reported
  · cases reported
    rfl
  · cases reported

/-- A diagnostic of a kind about the method at an index. -/
def ClassFile.Reports (file : ClassFile) (kind : DiagnosticKind) (index : Nat)
    (diagnostic : Diagnostic) : Prop :=
  diagnostic ∈ file.diagnostics ∧ diagnostic.method? = some (index : Int) ∧ diagnostic.kind = kind

theorem ClassFile.reports_iff {file : ClassFile} {index : Nat} {own : List Diagnostic}
    (filtered : file.diagnostics.filter (·.method? = some (index : Int)) = own)
    (kind : DiagnosticKind) (diagnostic : Diagnostic) :
    file.Reports kind index diagnostic ↔ diagnostic ∈ own ∧ diagnostic.kind = kind := by
  simp only [ClassFile.Reports, ← filtered, List.mem_filter, decide_eq_true_eq, and_assoc]

/-- Diagnostics about a method and its violation of a parameter limit are of one mind: an invalid
descriptor is reported by both in the same words, and so is one that does not resolve, where the
diagnostic says first what was looked up. -/
structure ClassFile.VerdictsAgree (file : ClassFile) (limit : UInt8) (index : Nat)
    (method : Method) : Prop where
  invalid : (∃ diagnostic, file.Reports .descriptor index diagnostic) ↔
    ∃ violation, argumentViolation? limit file method = some violation ∧
      violation.kind = .invalidDescriptor
  unresolved : (∃ diagnostic, file.Reports .unresolved index diagnostic) ↔
    ∃ violation, argumentViolation? limit file method = some violation ∧
      (violation.kind = .notFound ∨ violation.kind = .invalidFormat)
  invalidText : ∀ diagnostic violation, argumentViolation? limit file method = some violation →
    file.Reports .descriptor index diagnostic → violation.message = diagnostic.message
  unresolvedText : ∀ diagnostic violation, argumentViolation? limit file method = some violation →
    file.Reports .unresolved index diagnostic →
      "descriptor: " ++ violation.message = diagnostic.message

theorem verdictsAgree_of_diagnosed {file : ClassFile} {index : Nat} {method : Method}
    {name : Bytes} (limit : UInt8) (named : file.methodName method = .ok name)
    (diagnosed : method.Diagnosed file.pool index
      (file.diagnostics.filter (·.method? = some (index : Int)))) :
    file.VerdictsAgree limit index method := by
  generalize filtered : file.diagnostics.filter (·.method? = some (index : Int)) = own at diagnosed
  have reports := file.reports_iff filtered
  cases diagnosed with
  | @unresolved reason failed =>
      have reported := argumentViolation?_of_unresolved limit named failed
      have kind := (MethodError.mk name reason).toViolation_kind
      simp only [List.mem_singleton] at reports
      constructor
      · constructor
        · rintro ⟨diagnostic, present⟩
          obtain ⟨rfl, isDescriptor⟩ := (reports .descriptor diagnostic).mp present
          cases isDescriptor
        · rintro ⟨violation, found, isInvalid⟩
          cases reported.symm.trans found
          exact absurd isInvalid (MethodError.toViolation_kind_ne _)
      · exact ⟨fun _ => ⟨_, reported, kind⟩, fun _ => ⟨_, (reports .unresolved _).mpr ⟨rfl, rfl⟩⟩⟩
      · intro diagnostic violation found present
        obtain ⟨rfl, isDescriptor⟩ := (reports .descriptor diagnostic).mp present
        cases isDescriptor
      · intro diagnostic violation found present
        cases reported.symm.trans found
        obtain ⟨rfl, -⟩ := (reports .unresolved diagnostic).mp present
        rw [MethodError.toViolation_message]
  | @invalid text reason resolved rejected =>
      have reported := argumentViolation?_of_invalid limit named resolved rejected
      simp only [List.mem_singleton] at reports
      constructor
      · exact ⟨fun _ => ⟨_, reported, rfl⟩, fun _ => ⟨_, (reports .descriptor _).mpr ⟨rfl, rfl⟩⟩⟩
      · constructor
        · rintro ⟨diagnostic, present⟩
          obtain ⟨rfl, isUnresolved⟩ := (reports .unresolved diagnostic).mp present
          cases isUnresolved
        · rintro ⟨violation, found, kind⟩
          cases reported.symm.trans found
          rcases kind with kind | kind <;> cases kind
      · intro diagnostic violation found present
        cases reported.symm.trans found
        obtain ⟨rfl, -⟩ := (reports .descriptor diagnostic).mp present
        rfl
      · intro diagnostic violation found present
        obtain ⟨rfl, isUnresolved⟩ := (reports .unresolved diagnostic).mp present
        cases isUnresolved
  | clean resolved accepted =>
      have harmless : ∀ violation, argumentViolation? limit file method = some violation →
          violation.kind = .ruleCheck :=
        fun _ reported => argumentViolation?_of_clean named resolved accepted reported
      have silent : ∀ kind diagnostic, ¬ file.Reports kind index diagnostic := by
        intro kind diagnostic present
        cases ((reports kind diagnostic).mp present).1
      constructor
      · constructor
        · rintro ⟨diagnostic, present⟩
          exact absurd present (silent _ diagnostic)
        · rintro ⟨violation, found, kind⟩
          rw [harmless violation found] at kind
          cases kind
      · constructor
        · rintro ⟨diagnostic, present⟩
          exact absurd present (silent _ diagnostic)
        · rintro ⟨violation, found, kind⟩
          rw [harmless violation found] at kind
          rcases kind with kind | kind <;> cases kind
      · intro diagnostic violation found present
        exact absurd present (silent _ diagnostic)
      · intro diagnostic violation found present
        exact absurd present (silent _ diagnostic)

/-! ## Strict decoding -/

theorem not_invalid_of_firstInvalidDescriptor? {pool : Pool} {index : Nat} {methods : List Method}
    (clean : firstInvalidDescriptor? pool index methods = none) :
    ∀ method ∈ methods, ∀ reason, descriptorFinding? pool method ≠ some (.invalid reason) := by
  induction methods generalizing index with
  | nil => simp
  | cons first methods ih =>
      intro method member reason found
      simp only [firstInvalidDescriptor?] at clean
      rcases List.mem_cons.mp member with rfl | member
      · rw [found] at clean
        cases clean
      · split at clean
        · cases clean
        · exact ih clean method member reason found

theorem read_of_decode_strict {data : Bytes} {file : ClassFile}
    (decoded : decode .strict data = .ok file) :
    ∃ raw after, readClass data = .ok (raw, after) ∧ file = raw.interpret after ∧
      firstInvalidDescriptor? file.pool 0 file.methods = none := by
  cases read : readClass data with
  | error error =>
      rw [decode_of_read_error .strict read] at decoded
      cases decoded
  | ok found =>
      obtain ⟨raw, after⟩ := found
      by_cases consumed : after.remaining = 0
      · cases invalid : firstInvalidDescriptor? (raw.interpret after).pool 0
            (raw.interpret after).methods with
        | none =>
            rw [decode_strict_of_clean read consumed invalid] at decoded
            cases decoded
            exact ⟨raw, after, rfl, rfl, invalid⟩
        | some first =>
            obtain ⟨index, method, reason⟩ := first
            rw [decode_strict_of_invalid read consumed invalid] at decoded
            cases decoded
      · rw [decode_strict_of_trailing read consumed] at decoded
        cases decoded

theorem argumentViolation?_kind_of_strict {file : ClassFile} {method : Method} {limit : UInt8}
    {violation : Violation}
    (clean : ∀ reason, descriptorFinding? file.pool method ≠ some (.invalid reason))
    (reported : argumentViolation? limit file method = some violation) :
    violation.kind ≠ .invalidDescriptor := by
  cases named : file.methodName method with
  | error error =>
      simp only [argumentViolation?, ClassFile.resolveMethod, named, bind, Except.bind,
        Option.some.injEq] at reported
      subst reported
      exact error.toViolation_kind_ne
  | ok name =>
      cases resolved : file.pool.utf8 method.descriptor with
      | error reason =>
          cases (argumentViolation?_of_unresolved limit named resolved).symm.trans reported
          exact MethodError.toViolation_kind_ne _
      | ok text =>
          cases parsed : MethodDescriptor.parse text with
          | error reason =>
              refine absurd ?_ (clean reason)
              simp only [descriptorFinding?, resolved, parsed]
          | ok descriptor =>
              rw [argumentViolation?_of_clean named resolved parsed reported]
              decide

theorem binaryNameViolation?_kind {file : ClassFile} {method : Method} {violation : Violation}
    (reported : binaryNameViolation? file method = some violation) :
    violation.kind ≠ .invalidDescriptor := by
  unfold binaryNameViolation? at reported
  split at reported
  · cases reported
    exact MethodError.toViolation_kind_ne _
  · split at reported
    · cases reported
      exact nofun
    · cases reported

theorem voidViolation?_kind {file : ClassFile} {method : Method} {violation : Violation}
    (reported : voidViolation? file method = some violation) :
    violation.kind ≠ .invalidDescriptor := by
  unfold voidViolation? at reported
  split at reported
  · cases reported
    exact MethodError.toViolation_kind_ne _
  · split at reported
    · cases reported
    · split at reported
      · cases reported
        exact MethodError.toViolation_kind_ne _
      · split at reported
        · cases reported
          exact nofun
        · cases reported

theorem Rule.violations_kind_of_strict {file : ClassFile} {rule : Rule} {violation : Violation}
    (clean : firstInvalidDescriptor? file.pool 0 file.methods = none)
    (reported : violation ∈ rule.violations file) : violation.kind ≠ .invalidDescriptor := by
  unfold Rule.violations at reported
  split at reported
  · obtain ⟨method, -, found⟩ := List.mem_filterMap.mp reported
    exact binaryNameViolation?_kind found
  · obtain ⟨method, member, found⟩ := List.mem_filterMap.mp reported
    exact argumentViolation?_kind_of_strict
      (not_invalid_of_firstInvalidDescriptor? clean method member) found
  · obtain ⟨method, -, found⟩ := List.mem_filterMap.mp reported
    exact voidViolation?_kind found
  · rw [List.mem_singleton.mp reported]
    exact nofun

/-- The diagnostics of a decode are those of the version, of trailing bytes and of the methods,
in this order. On every method whose name resolves they agree with the rule on the number of
parameters, in kind and in text. A class that decodes strictly never violates a rule by an
invalid descriptor. -/
theorem diagnostics_agree_with_argument_rule (data : Bytes) (limit : UInt8) :
    (∀ file, decode .bestEffort data = .ok file →
      (∃ raw rest, ∃ methods : List Diagnostic, RawClass.Fits raw ∧ data = raw.encode ++ rest ∧
        file.diagnostics =
          (if (release? file.major).isNone then
            [⟨.version, 6, none, "unknown major version " ++ decimal file.major.toNat⟩] else []) ++
          (if rest = [] then [] else
            [⟨.trailing, raw.encode.length, none,
              decimal rest.length ++ " trailing bytes ignored"⟩]) ++ methods ∧
        (methods.Pairwise fun earlier later => ∃ left right : Nat,
          earlier.method? = some (left : Int) ∧ later.method? = some (right : Int) ∧
            left < right) ∧
        ∀ diagnostic ∈ methods, ∃ (index : Nat) (method : Method),
          file.methods[index]? = some method ∧ diagnostic.method? = some (index : Int) ∧
            diagnostic.offset = (method.offset : Int)) ∧
      (∀ (index : Nat) (method : Method), file.methods[index]? = some method →
        method.Diagnosed file.pool index
          (file.diagnostics.filter (·.method? = some (index : Int)))) ∧
      (Rule.mk .tooManyArguments limit).violations file =
        file.methods.filterMap (argumentViolation? limit file) ∧
      ∀ (index : Nat) (method : Method) (name : Bytes), file.methods[index]? = some method →
        file.methodName method = .ok name → file.VerdictsAgree limit index method) ∧
    ∀ file, decode .strict data = .ok file → ∀ name rule,
      ∀ violation ∈ (evaluate name file rule).violations,
        violation.kind ≠ .invalidDescriptor := by
  constructor
  · intro file decoded
    obtain ⟨raw, ⟨position, rest⟩, read, rfl⟩ := read_of_decode decoded
    obtain ⟨fits, rfl, rfl⟩ := readClass_eq_ok read
    refine ⟨⟨raw, rest, descriptorDiagnostics _ 0 raw.methodTable, fits, rfl, ?_,
      descriptorDiagnostics_increasing (Pool.ofConstants raw.poolCount raw.constants) 0 _, ?_⟩,
      ?_, rfl, ?_⟩
    · rw [raw.interpret_diagnostics, trailingDiagnostics_mk, versionDiagnostics_eq_if]
      rfl
    · intro diagnostic member
      obtain ⟨index, method, finding, present, rfl⟩ := mem_descriptorDiagnostics member
      rw [Nat.zero_add]
      exact ⟨index, method, present, finding.diagnostic_method? _ _,
        finding.diagnostic_offset _ _⟩
    · intro index method present
      exact raw.interpret_diagnosed _ present
    · intro index method name present named
      exact verdictsAgree_of_diagnosed limit named (raw.interpret_diagnosed _ present)
  · intro file decoded name rule violation reported
    obtain ⟨raw, after, -, -, clean⟩ := read_of_decode_strict decoded
    exact Rule.violations_kind_of_strict clean reported

/-- A class with an invalid descriptor, one that does not resolve, and a valid one. -/
def brokenDescriptorClass : RawClass :=
  { minor := 0, major := 70, poolCount := 4,
    constants := [.utf8 "f", .utf8 "(V)V", .utf8 "(II)V"], access := 0x0021,
    thisClass := 0, superClass := 0, interfaces := [], fields := [],
    methods := [⟨1, 1, 2, []⟩, ⟨1, 1, 9, []⟩, ⟨1, 1, 3, []⟩], attributes := [] }

theorem diagnostics_agree_with_argument_rule_broken :
    ∃ file, decode .bestEffort (brokenDescriptorClass.encode ++ [0]) = .ok file ∧
      ∃ method, file.methods[1]? = some method ∧
        file.methodName method = .ok (Bytes.ofString "f") ∧
        file.VerdictsAgree 1 1 method ∧
        ∃ violation, argumentViolation? 1 file method = some violation ∧
          violation.kind = .notFound := by
  have decoded := decode_encode (by decide : brokenDescriptorClass.Fits) [0]
  obtain ⟨-, -, -, agree⟩ := (diagnostics_agree_with_argument_rule _ 1).1 _ decoded
  have present : (brokenDescriptorClass.interpret
      ⟨brokenDescriptorClass.encode.length, [0]⟩).methods[1]? = some ⟨49, 1, 1, 9, 0⟩ := by decide
  have named : (brokenDescriptorClass.interpret
      ⟨brokenDescriptorClass.encode.length, [0]⟩).methodName ⟨49, 1, 1, 9, 0⟩ =
        .ok (Bytes.ofString "f") := by decide
  exact ⟨_, decoded, _, present, named, agree 1 _ _ present named, _, rfl, rfl⟩

end ClassAudit
