import ClassAudit.Proofs.DescriptorFindingProperties

/-!
# Verdicts of rules on methods

A rule judges every method by itself, from what resolves of its name and descriptor. Rules that
need the same of a broken method say the same about it. The rule on void results looks only at
the last byte of a descriptor, which decides as the whole descriptor would.
-/

set_option autoImplicit false

namespace ClassAudit

/-! ## Void results -/

/-- A class name ends in its semicolon, whatever its own last letter is. -/
theorem ElementType.IsField.getLast?_print_ne {element : ElementType} (valid : element.IsField) :
    element.print.getLast? ≠ some 0x56 := by
  cases element with
  | letter base =>
      intro ended
      cases ended
      revert valid
      decide
  | object name =>
      rw [ElementType.print, List.getLast?_concat]
      decide

theorem ElementType.print_ne_nil (element : ElementType) : element.print ≠ [] := by
  cases element with
  | letter base => exact List.cons_ne_nil _ _
  | object name => exact List.append_ne_nil_of_right_ne_nil _ (List.cons_ne_nil _ _)

theorem TypeDescriptor.print_ne_nil (type : TypeDescriptor) : type.print ≠ [] :=
  List.append_ne_nil_of_right_ne_nil _ type.element.print_ne_nil

theorem getLast?_append_right (before : Bytes) {ending : Bytes} (nonempty : ending ≠ []) :
    (before ++ ending).getLast? = ending.getLast? := by
  rw [List.getLast?_append, List.getLast?_eq_some_getLast nonempty, Option.some_or]

/-- A descriptor ends as the element type of its result does. -/
theorem MethodDescriptor.getLast?_print (method : MethodDescriptor) :
    method.print.getLast? = method.result.element.print.getLast? :=
  (getLast?_append_right _ method.result.print_ne_nil).trans
    (getLast?_append_right _ method.result.element.print_ne_nil)

theorem TypeDescriptor.isVoid_iff {type : TypeDescriptor} : type.isVoid = true ↔ type = .void :=
  beq_iff_eq

theorem returnsVoid_iff_of_parse {text : Bytes} {method : MethodDescriptor}
    (accepted : MethodDescriptor.parse text = .ok method) :
    returnsVoid text = true ↔ method.result.isVoid = true := by
  obtain ⟨⟨-, result⟩, rfl⟩ := MethodDescriptor.parse_eq_ok_iff.mp accepted
  rw [returnsVoid, beq_iff_eq, method.getLast?_print, TypeDescriptor.isVoid_iff]
  rcases result with field | void
  · constructor
    · intro ended
      exact absurd ended (ElementType.IsField.getLast?_print_ne field)
    · intro void
      rw [void] at field
      exact absurd field (by decide)
  · rw [void]
    exact ⟨fun _ => rfl, fun _ => rfl⟩

/-- The names of the methods that may return void. -/
def voidNames : List Bytes := ["<init>", "<clinit>", "main"]

theorem mayReturnVoid_iff {name : Bytes} : mayReturnVoid name = true ↔ name ∈ voidNames := by
  simp only [mayReturnVoid, voidNames, Bool.or_eq_true, beq_iff_eq, List.mem_cons,
    List.not_mem_nil, or_false, or_assoc]

/-! ## What resolves of a method -/

/-- What resolves of a method: not its name, only its name, or its name and descriptor. -/
inductive ClassFile.Resolves (file : ClassFile) (method : Method) : Prop
  | unnamed {reason : LookupError} (failed : file.pool.utf8 method.name = .error reason)
  | undescribed {name : Bytes} {reason : LookupError}
      (named : file.pool.utf8 method.name = .ok name)
      (failed : file.pool.utf8 method.descriptor = .error reason)
  | whole {name text : Bytes} (named : file.pool.utf8 method.name = .ok name)
      (described : file.pool.utf8 method.descriptor = .ok text)

theorem ClassFile.resolves (file : ClassFile) (method : Method) : file.Resolves method := by
  cases named : file.pool.utf8 method.name with
  | error reason => exact .unnamed named
  | ok name =>
      cases described : file.pool.utf8 method.descriptor with
      | error reason => exact .undescribed named described
      | ok text => exact .whole named described

theorem ClassFile.methodName_of_ok {file : ClassFile} {method : Method} {name : Bytes}
    (named : file.pool.utf8 method.name = .ok name) : file.methodName method = .ok name := by
  rw [ClassFile.methodName, named]
  rfl

theorem ClassFile.methodName_of_error {file : ClassFile} {method : Method} {reason : LookupError}
    (failed : file.pool.utf8 method.name = .error reason) :
    file.methodName method = .error ⟨noMethodName, reason⟩ := by
  rw [ClassFile.methodName, failed]
  rfl

theorem ClassFile.resolveMethod_eq_ok_iff {file : ClassFile} {method : Method}
    {name text : Bytes} :
    file.resolveMethod method = .ok (name, text) ↔
      file.pool.utf8 method.name = .ok name ∧ file.pool.utf8 method.descriptor = .ok text := by
  rw [ClassFile.resolveMethod, ClassFile.methodName]
  cases file.pool.utf8 method.name with
  | error reason => simp [Except.mapError, bind, Except.bind]
  | ok found =>
      cases file.pool.utf8 method.descriptor with
      | error reason => simp [Except.mapError, bind, Except.bind]
      | ok found => simp [Except.mapError, bind, Except.bind, pure, Except.pure]

/-- The violation by a method of which a lookup failed, under the name known for it. -/
def LookupError.violation (reason : LookupError) (method : Bytes) : Violation :=
  ⟨method, reason.toFault.summary, reason.toFault.kind⟩

theorem MethodError.toViolation_eq (error : MethodError) :
    error.toViolation = error.reason.violation error.method := by
  rw [LookupError.violation, ← error.toViolation_message]
  rfl

theorem LookupError.violation_kind (reason : LookupError) (method : Bytes) :
    (reason.violation method).kind = .notFound ∨ (reason.violation method).kind = .invalidFormat :=
  (MethodError.mk method reason).toViolation_kind

theorem LookupError.violation_kind_ne (reason : LookupError) (method : Bytes) :
    (reason.violation method).kind ≠ .ruleCheck := by
  rcases reason.violation_kind method with kind | kind <;> rw [kind] <;> decide

/-! ## Verdicts -/

/-- The violation of a rule by one method. A rule outside the catalog judges no method. -/
def Rule.violation? (rule : Rule) (file : ClassFile) (method : Method) : Option Violation :=
  match rule.kind with
  | .noBinaryInNames => binaryNameViolation? file method
  | .tooManyArguments => argumentViolation? rule.param file method
  | .checkNoVoid => voidViolation? file method
  | .unknown _ => none

theorem Rule.violations_eq_filterMap {rule : Rule} (listed : rule.kind ∈ RuleKind.catalog)
    (file : ClassFile) : rule.violations file = file.methods.filterMap (rule.violation? file) := by
  obtain ⟨kind, param⟩ := rule
  cases kind with
  | noBinaryInNames | tooManyArguments | checkNoVoid => rfl
  | unknown number => simp [RuleKind.catalog] at listed

theorem binaryNameViolation?_of_named {file : ClassFile} {method : Method} {name : Bytes}
    (named : file.pool.utf8 method.name = .ok name) :
    binaryNameViolation? file method =
      if isBinaryName name then
        some ⟨name, "method name " ++ quoted name ++ " contains a binary operator", .ruleCheck⟩
      else none := by
  simp only [binaryNameViolation?, file.methodName_of_ok named]

theorem binaryNameViolation?_kind_of_named {file : ClassFile} {method : Method} {name : Bytes}
    {violation : Violation} (named : file.pool.utf8 method.name = .ok name)
    (reported : binaryNameViolation? file method = some violation) :
    violation.kind = .ruleCheck := by
  rw [binaryNameViolation?_of_named named] at reported
  split at reported
  · cases reported
    rfl
  · cases reported

theorem argumentViolation?_of_undescribed {file : ClassFile} {method : Method} {name : Bytes}
    {reason : LookupError} (limit : UInt8) (named : file.pool.utf8 method.name = .ok name)
    (failed : file.pool.utf8 method.descriptor = .error reason) :
    argumentViolation? limit file method = some (reason.violation name) := by
  rw [argumentViolation?_of_unresolved limit (file.methodName_of_ok named) failed,
    MethodError.toViolation_eq]

theorem voidViolation?_of_undescribed {file : ClassFile} {method : Method} {name : Bytes}
    {reason : LookupError} (named : file.pool.utf8 method.name = .ok name)
    (failed : file.pool.utf8 method.descriptor = .error reason) :
    voidViolation? file method =
      if mayReturnVoid name then none else some (reason.violation name) := by
  simp only [voidViolation?, file.methodName_of_ok named, failed, MethodError.toViolation_eq]

theorem voidViolation?_of_whole {file : ClassFile} {method : Method} {name text : Bytes}
    (named : file.pool.utf8 method.name = .ok name)
    (described : file.pool.utf8 method.descriptor = .ok text) :
    voidViolation? file method =
      if !mayReturnVoid name && returnsVoid text then
        some ⟨name, "method " ++ name ++ text ++ " returns void", .ruleCheck⟩
      else none := by
  simp only [voidViolation?, file.methodName_of_ok named, described]
  cases mayReturnVoid name <;> rfl

theorem Rule.violation?_of_unnamed (rule : Rule) {file : ClassFile} {method : Method}
    {reason : LookupError} (listed : rule.kind ∈ RuleKind.catalog)
    (failed : file.pool.utf8 method.name = .error reason) :
    rule.violation? file method = some (reason.violation noMethodName) := by
  have unnamed := file.methodName_of_error failed
  obtain ⟨kind, param⟩ := rule
  cases kind with
  | noBinaryInNames =>
      simp only [Rule.violation?, binaryNameViolation?, unnamed, MethodError.toViolation_eq]
  | tooManyArguments =>
      simp only [Rule.violation?, argumentViolation?, ClassFile.resolveMethod, unnamed, bind,
        Except.bind, MethodError.toViolation_eq]
  | checkNoVoid => simp only [Rule.violation?, voidViolation?, unnamed, MethodError.toViolation_eq]
  | unknown number => simp [RuleKind.catalog] at listed

theorem Rule.violation?_kind_of_whole {rule : Rule} {file : ClassFile} {method : Method}
    {name text : Bytes} {violation : Violation} (named : file.pool.utf8 method.name = .ok name)
    (described : file.pool.utf8 method.descriptor = .ok text)
    (reported : rule.violation? file method = some violation) :
    violation.kind = .ruleCheck ∨ violation.kind = .invalidDescriptor := by
  obtain ⟨kind, param⟩ := rule
  cases kind with
  | noBinaryInNames => exact .inl (binaryNameViolation?_kind_of_named named reported)
  | tooManyArguments =>
      have resolved := file.methodName_of_ok named
      cases parsed : MethodDescriptor.parse text with
      | error reason =>
          cases (argumentViolation?_of_invalid param resolved described parsed).symm.trans reported
          exact .inr rfl
      | ok descriptor =>
          exact .inl (argumentViolation?_of_clean resolved described parsed reported)
  | checkNoVoid =>
      have judged := (voidViolation?_of_whole named described).symm.trans reported
      split at judged
      · cases judged
        exact .inl rfl
      · cases judged
  | unknown number => cases reported

/-- Every violation is of one of four kinds, and one of the two kinds of failed lookups says
which lookup it was. -/
theorem Rule.violation?_cases {rule : Rule} {file : ClassFile} {method : Method}
    {violation : Violation} (listed : rule.kind ∈ RuleKind.catalog)
    (reported : rule.violation? file method = some violation) :
    (violation.kind = .ruleCheck ∨ violation.kind = .invalidDescriptor) ∨
      (∃ reason, file.pool.utf8 method.name = .error reason ∧
        violation = reason.violation noMethodName) ∨
      ∃ name reason, file.pool.utf8 method.name = .ok name ∧
        file.pool.utf8 method.descriptor = .error reason ∧
        (rule.kind = .tooManyArguments ∨ rule.kind = .checkNoVoid ∧ name ∉ voidNames) ∧
        violation = reason.violation name := by
  cases file.resolves method with
  | unnamed failed =>
      cases (rule.violation?_of_unnamed listed failed).symm.trans reported
      exact .inr (.inl ⟨_, failed, rfl⟩)
  | whole named described => exact .inl (Rule.violation?_kind_of_whole named described reported)
  | undescribed named failed =>
      obtain ⟨kind, param⟩ := rule
      cases kind with
      | noBinaryInNames =>
          exact .inl (.inl (binaryNameViolation?_kind_of_named named reported))
      | tooManyArguments =>
          cases (argumentViolation?_of_undescribed param named failed).symm.trans reported
          exact .inr (.inr ⟨_, _, named, failed, .inl rfl, rfl⟩)
      | checkNoVoid =>
          have judged := (voidViolation?_of_undescribed named failed).symm.trans reported
          split at judged
          · cases judged
          · rename_i strict
            cases judged
            rw [mayReturnVoid_iff] at strict
            exact .inr (.inr ⟨_, _, named, failed, .inr ⟨rfl, strict⟩, rfl⟩)
      | unknown number => cases reported

/-- Every catalog rule gives at most one violation a method, in the order of the method table and
of one of four kinds. A method without a name violates all rules alike. A method without a
descriptor violates alike the rules that look at descriptors, and the rule on names only by its
name. The two kinds of failed lookups arise in no other way. -/
theorem catalog_rules_agree_on_broken_methods (display : Bytes) (file : ClassFile) :
    (∀ rule : Rule, rule.kind ∈ RuleKind.catalog →
      (evaluate display file rule).violations = file.methods.filterMap (rule.violation? file) ∧
      ∀ violation ∈ (evaluate display file rule).violations,
        violation.kind ∈ [FaultKind.ruleCheck, .invalidDescriptor, .notFound, .invalidFormat]) ∧
    ∀ method : Method,
      (∀ reason, file.pool.utf8 method.name = .error reason →
        ∀ rule : Rule, rule.kind ∈ RuleKind.catalog → rule.violation? file method =
          some ⟨"N/A", reason.toFault.summary, reason.toFault.kind⟩) ∧
      (∀ name reason param, file.pool.utf8 method.name = .ok name →
        file.pool.utf8 method.descriptor = .error reason →
        (Rule.mk .tooManyArguments param).violation? file method =
          some ⟨name, reason.toFault.summary, reason.toFault.kind⟩ ∧
        (name ∉ voidNames → (Rule.mk .checkNoVoid param).violation? file method =
          some ⟨name, reason.toFault.summary, reason.toFault.kind⟩) ∧
        (name ∈ voidNames → (Rule.mk .checkNoVoid param).violation? file method = none) ∧
        (Rule.mk .noBinaryInNames param).violation? file method =
          if isBinaryName name then
            some ⟨name, "method name " ++ quoted name ++ " contains a binary operator", .ruleCheck⟩
          else none) ∧
      ∀ (rule : Rule) (violation : Violation), rule.kind ∈ RuleKind.catalog →
        rule.violation? file method = some violation →
        (violation.kind = .notFound ∨ violation.kind = .invalidFormat) →
        (∃ reason, file.pool.utf8 method.name = .error reason) ∨
          ∃ name reason, file.pool.utf8 method.name = .ok name ∧
            file.pool.utf8 method.descriptor = .error reason ∧
            (rule.kind = .tooManyArguments ∨ rule.kind = .checkNoVoid ∧ name ∉ voidNames) := by
  refine ⟨?_, ?_⟩
  · intro rule listed
    have judged := Rule.violations_eq_filterMap listed file
    refine ⟨judged, ?_⟩
    intro violation reported
    rw [evaluate, judged] at reported
    obtain ⟨method, -, found⟩ := List.mem_filterMap.mp reported
    simp only [List.mem_cons, List.not_mem_nil, or_false]
    rcases Rule.violation?_cases listed found with
      known | ⟨reason, -, rfl⟩ | ⟨name, reason, -, -, -, rfl⟩
    · rcases known with check | descriptor
      · exact .inl check
      · exact .inr (.inl descriptor)
    · exact .inr (.inr (reason.violation_kind _))
    · exact .inr (.inr (reason.violation_kind _))
  · intro method
    refine ⟨?_, ?_, ?_⟩
    · intro reason failed rule listed
      exact rule.violation?_of_unnamed listed failed
    · intro name reason param named failed
      have judged := voidViolation?_of_undescribed named failed
      simp only [← mayReturnVoid_iff]
      exact ⟨argumentViolation?_of_undescribed param named failed,
        fun strict => judged.trans (if_neg strict), fun exempt => judged.trans (if_pos exempt),
        binaryNameViolation?_of_named named⟩
    · intro rule violation listed reported kind
      rcases Rule.violation?_cases listed reported with
        known | ⟨reason, failed, -⟩ | ⟨name, reason, named, failed, judging, -⟩
      · rcases known with known | known <;> rw [known] at kind <;> rcases kind with kind | kind <;>
          cases kind
      · exact .inl ⟨reason, failed⟩
      · exact .inr ⟨name, reason, named, failed, judging⟩

theorem catalog_rules_agree_on_broken_methods_undescribed :
    ∃ file, decode .bestEffort (brokenDescriptorClass.encode ++ []) = .ok file ∧
      ∃ method ∈ file.methods, ∃ reason, file.pool.utf8 method.descriptor = .error reason ∧
        (Rule.mk .checkNoVoid 0).violation? file method =
          some ⟨"f", reason.toFault.summary, reason.toFault.kind⟩ ∧
        (Rule.mk .checkNoVoid 0).violation? file method =
          (Rule.mk .tooManyArguments 9).violation? file method := by
  refine ⟨_, decode_encode (by decide) [], ⟨49, 1, 1, 9, 0⟩, by decide, .outOfRange 9 4,
    by decide, ?_⟩
  have agree := (catalog_rules_agree_on_broken_methods []
    (brokenDescriptorClass.interpret ⟨brokenDescriptorClass.encode.length, []⟩)).2
      ⟨49, 1, 1, 9, 0⟩
  have void := (agree.2.1 "f" (.outOfRange 9 4) 0 (by decide) (by decide)).2.1 (by decide)
  have arguments := (agree.2.1 "f" (.outOfRange 9 4) 9 (by decide) (by decide)).1
  exact ⟨void, void.trans arguments.symm⟩

/-! ## Void methods of strictly decoded classes -/

theorem voidViolation?_ruleCheck_iff {file : ClassFile} {method : Method} :
    (∃ violation, voidViolation? file method = some violation ∧ violation.kind = .ruleCheck) ↔
      ∃ name text, file.resolveMethod method = .ok (name, text) ∧ name ∉ voidNames ∧
        returnsVoid text = true := by
  simp only [ClassFile.resolveMethod_eq_ok_iff, ← mayReturnVoid_iff]
  constructor
  · intro found
    obtain ⟨violation, reported, kind⟩ := found
    cases file.resolves method with
    | unnamed failed =>
        have judged := (Rule.mk .checkNoVoid 0).violation?_of_unnamed (by decide) failed
        cases judged.symm.trans reported
        exact absurd kind (LookupError.violation_kind_ne _ _)
    | undescribed named failed =>
        rw [voidViolation?_of_undescribed named failed] at reported
        split at reported
        · cases reported
        · cases reported
          exact absurd kind (LookupError.violation_kind_ne _ _)
    | whole named described =>
        rw [voidViolation?_of_whole named described] at reported
        split at reported
        · rename_i judged
          simp only [Bool.and_eq_true, Bool.not_eq_true', ← Bool.not_eq_true] at judged
          exact ⟨_, _, ⟨named, described⟩, judged⟩
        · cases reported
  · intro found
    obtain ⟨name, text, ⟨named, described⟩, strict, void⟩ := found
    refine ⟨_, (voidViolation?_of_whole named described).trans (if_pos ?_), rfl⟩
    simp [strict, void]

theorem parse_of_not_invalid {pool : Pool} {method : Method} {text : Bytes}
    (clean : ∀ reason, descriptorFinding? pool method ≠ some (.invalid reason))
    (described : pool.utf8 method.descriptor = .ok text) :
    ∃ parsed, MethodDescriptor.parse text = .ok parsed := by
  cases parsed : MethodDescriptor.parse text with
  | ok method => exact ⟨method, rfl⟩
  | error reason =>
      refine absurd ?_ (clean reason)
      simp only [descriptorFinding?, described, parsed]

/-- The last byte of an accepted descriptor tells whether its result is void. A class that
decodes strictly has only such descriptors, so that the rule on void results finds exactly the
methods whose parsed result is void and whose name does not excuse it. -/
theorem void_rule_agrees_with_parsed_result :
    (∀ text method, MethodDescriptor.parse text = .ok method →
      (returnsVoid text = true ↔ method.result.isVoid = true)) ∧
    ∀ data file, decode .strict data = .ok file → ∀ (display : Bytes) (param : UInt8),
      (evaluate display file ⟨.checkNoVoid, param⟩).violations =
        file.methods.filterMap (voidViolation? file) ∧
      ∀ method ∈ file.methods,
        ((∃ violation, voidViolation? file method = some violation ∧
            violation.kind = .ruleCheck) ↔
          ∃ name text parsed, file.resolveMethod method = .ok (name, text) ∧
            name ∉ voidNames ∧ MethodDescriptor.parse text = .ok parsed ∧
            parsed.result.isVoid = true) := by
  refine ⟨fun text method accepted => returnsVoid_iff_of_parse accepted, ?_⟩
  intro data file decoded display param
  refine ⟨rfl, ?_⟩
  intro method member
  obtain ⟨raw, after, -, -, clean⟩ := read_of_decode_strict decoded
  rw [voidViolation?_ruleCheck_iff]
  constructor
  · intro found
    obtain ⟨name, text, resolved, strict, void⟩ := found
    obtain ⟨parsed, accepted⟩ := parse_of_not_invalid
      (not_invalid_of_firstInvalidDescriptor? clean method member)
      (file.resolveMethod_eq_ok_iff.mp resolved).2
    exact ⟨name, text, parsed, resolved, strict, accepted,
      (returnsVoid_iff_of_parse accepted).mp void⟩
  · intro found
    obtain ⟨name, text, parsed, resolved, strict, accepted, void⟩ := found
    exact ⟨name, text, resolved, strict, (returnsVoid_iff_of_parse accepted).mpr void⟩

/-- A class with a void method and a method that takes and returns a class named by the letter of
void. -/
def voidResultClass : RawClass :=
  { minor := 0, major := 52, poolCount := 4,
    constants := [.utf8 "f", .utf8 "()V", .utf8 "(LV;)LV;"], access := 0x0021,
    thisClass := 0, superClass := 0, interfaces := [], fields := [],
    methods := [⟨1, 1, 2, []⟩, ⟨1, 1, 3, []⟩], attributes := [] }

theorem void_rule_agrees_with_parsed_result_named :
    ∃ file, decode .strict (voidResultClass.encode ++ []) = .ok file ∧
      (∃ method ∈ file.methods, ∃ violation, voidViolation? file method = some violation ∧
        violation.kind = .ruleCheck) ∧
      ∃ method ∈ file.methods, file.resolveMethod method = .ok ("f", "(LV;)LV;") ∧
        ¬ ∃ violation, voidViolation? file method = some violation ∧
          violation.kind = .ruleCheck := by
  have void : MethodDescriptor.parse "()V" = .ok ⟨[], .void⟩ :=
    MethodDescriptor.parse_eq_ok_iff.mpr (by decide)
  have object : MethodDescriptor.parse "(LV;)LV;" =
      .ok ⟨[⟨0, .object "V"⟩], ⟨0, .object "V"⟩⟩ :=
    MethodDescriptor.parse_eq_ok_iff.mpr (by decide)
  have second : (Pool.ofConstants 4 voidResultClass.constants).utf8 2 =
      .ok (Bytes.ofString "()V") := by decide
  have third : (Pool.ofConstants 4 voidResultClass.constants).utf8 3 =
      .ok (Bytes.ofString "(LV;)LV;") := by decide
  have clean : firstInvalidDescriptor? (Pool.ofConstants 4 voidResultClass.constants) 0
      [⟨43, 1, 1, 2, 0⟩, ⟨51, 1, 1, 3, 0⟩] = none := by
    simp only [firstInvalidDescriptor?, descriptorFinding?, second, third, void, object]
  have decoded := decode_strict_of_clean (readClass_encode (by decide : voidResultClass.Fits) [])
    rfl clean
  obtain ⟨-, agree⟩ := void_rule_agrees_with_parsed_result.2 _ _ decoded [] 0
  have spared : (voidResultClass.interpret ⟨voidResultClass.encode.length, []⟩).resolveMethod
      ⟨51, 1, 1, 3, 0⟩ = .ok ("f", "(LV;)LV;") := by decide
  refine ⟨_, decoded, ⟨⟨43, 1, 1, 2, 0⟩, by decide, (agree _ (by decide)).mpr ?_⟩,
    ⟨51, 1, 1, 3, 0⟩, by decide, spared, ?_⟩
  · exact ⟨"f", "()V", ⟨[], .void⟩, by decide, by decide, void, by decide⟩
  · intro reported
    obtain ⟨name, text, parsed, resolved, -, accepted, isVoid⟩ :=
      (agree _ (by decide)).mp reported
    cases spared.symm.trans resolved
    cases object.symm.trans accepted
    cases isVoid

end ClassAudit
