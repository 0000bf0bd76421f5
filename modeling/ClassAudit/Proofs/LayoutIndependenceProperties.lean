import ClassAudit.Proofs.RuleVerdictProperties

/-!
# Independence of the layout

Rules see a class only through the resolved names and descriptors of its methods, so that pools,
flags and versions have no part in their verdicts. Decoding sees of attributes only how many
there are, and of fields not even their headers: what stands there can only move the offsets of
what follows.
-/

set_option autoImplicit false

namespace ClassAudit

/-! ## Verdicts on resolved methods -/

/-- All methods of a class resolve, to these names and descriptors in this order. -/
def ClassFile.ResolvesTo (file : ClassFile) (pairs : List (Bytes × Bytes)) : Prop :=
  file.methods.map file.resolveMethod = pairs.map .ok

theorem Rule.violation?_of_resolved {left right : ClassFile} {leftMethod rightMethod : Method}
    {pair : Bytes × Bytes} (rule : Rule) (leftResolved : left.resolveMethod leftMethod = .ok pair)
    (rightResolved : right.resolveMethod rightMethod = .ok pair) :
    rule.violation? left leftMethod = rule.violation? right rightMethod := by
  obtain ⟨name, text⟩ := pair
  obtain ⟨leftNamed, leftDescribed⟩ := left.resolveMethod_eq_ok_iff.mp leftResolved
  obtain ⟨rightNamed, rightDescribed⟩ := right.resolveMethod_eq_ok_iff.mp rightResolved
  obtain ⟨kind, param⟩ := rule
  cases kind with
  | noBinaryInNames =>
      exact (binaryNameViolation?_of_named leftNamed).trans
        (binaryNameViolation?_of_named rightNamed).symm
  | tooManyArguments =>
      simp only [Rule.violation?, argumentViolation?, leftResolved, rightResolved]
  | checkNoVoid =>
      exact (voidViolation?_of_whole leftNamed leftDescribed).trans
        (voidViolation?_of_whole rightNamed rightDescribed).symm
  | unknown number => rfl

theorem ClassFile.filterMap_violation?_of_resolvesTo {left right : ClassFile}
    {leftMethods rightMethods : List Method} {pairs : List (Bytes × Bytes)} (rule : Rule)
    (leftResolved : leftMethods.map left.resolveMethod = pairs.map .ok)
    (rightResolved : rightMethods.map right.resolveMethod = pairs.map .ok) :
    leftMethods.filterMap (rule.violation? left) =
      rightMethods.filterMap (rule.violation? right) := by
  induction pairs generalizing leftMethods rightMethods with
  | nil =>
      rw [List.map_eq_nil_iff.mp leftResolved, List.map_eq_nil_iff.mp rightResolved]
      rfl
  | cons pair pairs ih =>
      obtain ⟨leftMethod, leftRest, rfl, leftFirst, leftOthers⟩ :=
        List.map_eq_cons_iff.mp leftResolved
      obtain ⟨rightMethod, rightRest, rfl, rightFirst, rightOthers⟩ :=
        List.map_eq_cons_iff.mp rightResolved
      rw [List.filterMap_cons, List.filterMap_cons, ih leftOthers rightOthers,
        rule.violation?_of_resolved leftFirst rightFirst]

theorem Rule.violations_of_resolvesTo {left right : ClassFile} {pairs : List (Bytes × Bytes)}
    (rule : Rule) (leftResolved : left.ResolvesTo pairs) (rightResolved : right.ResolvesTo pairs) :
    rule.violations left = rule.violations right := by
  have alike := ClassFile.filterMap_violation?_of_resolvesTo rule leftResolved rightResolved
  obtain ⟨kind, param⟩ := rule
  cases kind with
  | noBinaryInNames | tooManyArguments | checkNoVoid => exact alike
  | unknown number => rfl

/-! ## Offsets -/

def Method.unplaced (method : Method) : Method := { method with offset := 0 }

def Diagnostic.unplaced (diagnostic : Diagnostic) : Diagnostic := { diagnostic with offset := 0 }

/-- A class file with all offsets put to zero. -/
def ClassFile.unplaced (file : ClassFile) : ClassFile :=
  { file with
    methods := file.methods.map Method.unplaced
    diagnostics := file.diagnostics.map Diagnostic.unplaced }

/-- A refusal with its offset put to zero. -/
def DecodeError.unplaced : DecodeError → DecodeError
  | .truncated place _ reason => .truncated place 0 reason
  | .unknownTag index _ tag => .unknownTag index 0 tag
  | .trailingData count _ => .trailingData count 0
  | .invalidDescriptor method _ reason => .invalidDescriptor method 0 reason
  | other => other

/-- The outcome of a decode apart from its offsets. -/
def withoutOffsets : Except DecodeError ClassFile → Except DecodeError ClassFile
  | .ok file => .ok file.unplaced
  | .error error => .error error.unplaced

/-- Findings do not depend on where a method stands. -/
theorem map_unplaced_descriptorDiagnostics (pool : Pool) (index : Nat) (methods : List Method) :
    (descriptorDiagnostics pool index methods).map Diagnostic.unplaced =
      descriptorDiagnostics pool index (methods.map Method.unplaced) := by
  induction methods generalizing index with
  | nil => rfl
  | cons method methods ih =>
      have same : descriptorFinding? pool method.unplaced = descriptorFinding? pool method := rfl
      simp only [List.map_cons, descriptorDiagnostics, same]
      cases descriptorFinding? pool method with
      | none => exact ih (index + 1)
      | some finding =>
          rw [List.map_cons, ih (index + 1)]
          cases finding <;> rfl

theorem map_unplaced_firstInvalidDescriptor? (pool : Pool) (index : Nat) (methods : List Method) :
    (firstInvalidDescriptor? pool index methods).map
        (fun found => (found.1, found.2.1.unplaced, found.2.2)) =
      firstInvalidDescriptor? pool index (methods.map Method.unplaced) := by
  induction methods generalizing index with
  | nil => rfl
  | cons method methods ih =>
      have same : descriptorFinding? pool method.unplaced = descriptorFinding? pool method := rfl
      simp only [List.map_cons, firstInvalidDescriptor?, same]
      cases descriptorFinding? pool method with
      | none => exact ih (index + 1)
      | some finding =>
          cases finding with
          | unresolved reason => exact ih (index + 1)
          | invalid reason => rfl

theorem map_unplaced_trailingDiagnostics (after : Cursor) :
    (trailingDiagnostics after).map Diagnostic.unplaced = trailingDiagnostics ⟨0, after.rest⟩ := by
  obtain ⟨position, rest⟩ := after
  rw [trailingDiagnostics_mk, trailingDiagnostics_mk]
  split <;> rfl

theorem map_unplaced_strictRefusal? (file : ClassFile) (after : Cursor) :
    (strictRefusal? file after).map DecodeError.unplaced =
      strictRefusal? file.unplaced ⟨0, after.rest⟩ := by
  have invalid := map_unplaced_firstInvalidDescriptor? file.pool 0 file.methods
  have same : Cursor.remaining ⟨0, after.rest⟩ = after.remaining := rfl
  simp only [strictRefusal?, same]
  split
  · rfl
  · change _ = (firstInvalidDescriptor? file.pool 0 (file.methods.map Method.unplaced)).map _
    rw [← invalid, Option.map_map, Option.map_map]
    rfl

/-! ## Outlines -/

/-- As many attributes, without names and bodies. -/
def blankAttributes (attributes : List Attribute) : List Attribute :=
  attributes.map fun _ => ⟨0, []⟩

/-- A class without the contents of its attributes and the headers of its fields. Two classes
with the same outline differ in nothing else. -/
def RawClass.outline (raw : RawClass) : RawClass :=
  { raw with
    fields := raw.fields.map fun field => ⟨0, 0, 0, blankAttributes field.attributes⟩
    methods := raw.methods.map fun method =>
      { method with attributes := blankAttributes method.attributes }
    attributes := blankAttributes raw.attributes }

theorem map_unplaced_zip_memberOffsets (start : Nat) (members : List Member) :
    ((members.zip (memberOffsets start members)).map fun entry =>
        (Method.mk entry.2 entry.1.access entry.1.name entry.1.descriptor
          entry.1.attributes.length).unplaced) =
      members.map fun member =>
        ⟨0, member.access, member.name, member.descriptor, member.attributes.length⟩ := by
  induction members generalizing start with
  | nil => rfl
  | cons member members ih =>
      rw [memberOffsets, List.zip_cons_cons, List.map_cons, ih, List.map_cons]
      rfl

theorem RawClass.map_unplaced_methodTable (raw : RawClass) :
    raw.methodTable.map Method.unplaced =
      raw.methods.map fun member =>
        ⟨0, member.access, member.name, member.descriptor, member.attributes.length⟩ := by
  rw [RawClass.methodTable, List.map_map]
  exact map_unplaced_zip_memberOffsets _ raw.methods

theorem RawClass.map_unplaced_methodTable_outline (raw : RawClass) :
    raw.outline.methodTable.map Method.unplaced = raw.methodTable.map Method.unplaced := by
  rw [RawClass.map_unplaced_methodTable, RawClass.map_unplaced_methodTable]
  simp only [RawClass.outline, blankAttributes, List.map_map, Function.comp_def, List.length_map]

/-- Apart from offsets, the model of a class is the model of its outline. -/
theorem RawClass.unplaced_interpret (raw : RawClass) (after : Cursor) :
    (raw.interpret after).unplaced = (raw.outline.interpret ⟨0, after.rest⟩).unplaced := by
  have table := raw.map_unplaced_methodTable_outline
  have counts : raw.outline.fields.length = raw.fields.length ∧
      raw.outline.attributes.length = raw.attributes.length := by
    simp only [RawClass.outline, blankAttributes, List.length_map, and_self]
  have findings : (raw.interpret after).diagnostics.map Diagnostic.unplaced =
      (raw.outline.interpret ⟨0, after.rest⟩).diagnostics.map Diagnostic.unplaced := by
    simp only [RawClass.interpret_diagnostics, List.map_append, map_unplaced_trailingDiagnostics,
      map_unplaced_descriptorDiagnostics]
    change _ = _ ++ descriptorDiagnostics _ 0 (raw.outline.methodTable.map Method.unplaced)
    rw [table]
    rfl
  rw [ClassFile.unplaced, ClassFile.unplaced, findings]
  simp only [RawClass.interpret, table, counts]
  rfl

theorem withoutOffsets_decode {raw : RawClass} (fits : raw.Fits) (mode : DecodeMode)
    (trailing : Bytes) :
    withoutOffsets (decode mode (raw.encode ++ trailing)) =
      match mode, strictRefusal? (raw.outline.interpret ⟨0, trailing⟩).unplaced ⟨0, trailing⟩ with
      | .strict, some refusal => .error refusal
      | _, _ => .ok (raw.outline.interpret ⟨0, trailing⟩).unplaced := by
  have read := readClass_encode fits trailing
  have model := raw.unplaced_interpret ⟨raw.encode.length, trailing⟩
  cases mode with
  | bestEffort =>
      rw [decode_bestEffort_of_read read]
      exact congrArg Except.ok model
  | strict =>
      have refusal := map_unplaced_strictRefusal?
        (raw.interpret ⟨raw.encode.length, trailing⟩) ⟨raw.encode.length, trailing⟩
      rw [model] at refusal
      rw [decode_strict_of_read read, ← refusal]
      cases strictRefusal? (raw.interpret ⟨raw.encode.length, trailing⟩)
          ⟨raw.encode.length, trailing⟩ with
      | none => exact congrArg Except.ok model
      | some found => rfl

/-- Verdicts and decodes do not depend on how a class is laid out. Two classes whose methods
resolve to the same names and descriptors violate every rule alike. A decode changes only in its
offsets when the headers of fields and the names and bodies of attributes are replaced. -/
theorem verdicts_and_decodes_independent_of_layout :
    (∀ (left right : ClassFile) (pairs : List (Bytes × Bytes)), left.ResolvesTo pairs →
      right.ResolvesTo pairs → ∀ leftName rightName rule,
        (evaluate leftName left rule).violations = (evaluate rightName right rule).violations) ∧
    ∀ data file, decode .bestEffort data = .ok file →
      ∃ raw trailing, RawClass.Fits raw ∧ data = raw.encode ++ trailing ∧
        ∀ changed : RawClass, changed.Fits → changed.outline = raw.outline →
          ∀ mode, withoutOffsets (decode mode (changed.encode ++ trailing)) =
            withoutOffsets (decode mode data) := by
  constructor
  · intro left right pairs leftResolved rightResolved leftName rightName rule
    exact rule.violations_of_resolvesTo leftResolved rightResolved
  · intro data file decoded
    obtain ⟨raw, after, read, -⟩ := read_of_decode decoded
    obtain ⟨fits, shape, -⟩ := readClass_eq_ok read
    refine ⟨raw, after.rest, fits, shape, ?_⟩
    intro changed changedFits alike mode
    rw [shape, withoutOffsets_decode changedFits, withoutOffsets_decode fits, alike]

/-- A class with the smallest pool for one void method. -/
def straightClass : RawClass :=
  { minor := 0, major := 52, poolCount := 3, constants := [.utf8 "f", .utf8 "()V"],
    access := 0x0021, thisClass := 0, superClass := 0, interfaces := [], fields := [],
    methods := [⟨1, 1, 2, []⟩], attributes := [] }

/-- The same method behind a wide constant, among a field, attributes and other flags. -/
def windingClass : RawClass :=
  { minor := 3, major := 70, poolCount := 5, constants := [.long 7, .utf8 "()V", .utf8 "f"],
    access := 0x0200, thisClass := 4, superClass := 1, interfaces := [9],
    fields := [⟨2, 5, 6, [⟨1, [0]⟩]⟩], methods := [⟨8, 4, 3, [⟨2, [0xB1]⟩]⟩],
    attributes := [⟨8, []⟩] }

/-- `windingClass` with another field header and other attributes. -/
def rewoundClass : RawClass :=
  { windingClass with
    fields := [⟨0xFFFF, 0, 1, [⟨7, []⟩]⟩], methods := [⟨8, 4, 3, [⟨0, [1, 2, 3]⟩]⟩],
    attributes := [⟨1, [0xCA, 0xFE]⟩] }

theorem verdicts_and_decodes_independent_of_layout_winding :
    ∃ left right, decode .bestEffort (straightClass.encode ++ []) = .ok left ∧
      decode .bestEffort (windingClass.encode ++ [0]) = .ok right ∧ left.pool ≠ right.pool ∧
      (evaluate "a" left ⟨.checkNoVoid, 0⟩).violations =
        (evaluate "b" right ⟨.checkNoVoid, 0⟩).violations ∧
      withoutOffsets (decode .strict (rewoundClass.encode ++ [0])) =
        withoutOffsets (decode .strict (windingClass.encode ++ [0])) := by
  have straight := decode_encode (by decide : straightClass.Fits) []
  have windingFits : windingClass.Fits := by decide
  have winding := decode_encode windingFits [0]
  have straightResolves : (straightClass.interpret ⟨straightClass.encode.length, []⟩).ResolvesTo
      [("f", "()V")] := rfl
  have windingResolves : (windingClass.interpret ⟨windingClass.encode.length, [0]⟩).ResolvesTo
      [("f", "()V")] := rfl
  obtain ⟨verdicts, decodes⟩ := verdicts_and_decodes_independent_of_layout
  refine ⟨_, _, straight, winding, by decide,
    verdicts _ _ _ straightResolves windingResolves _ _ _, ?_⟩
  obtain ⟨raw, trailing, fits, shape, unchanged⟩ := decodes _ _ winding
  obtain ⟨rfl, rfl⟩ := RawClass.encode_append_injective windingFits fits shape
  exact unchanged rewoundClass (by decide) (by decide) .strict

end ClassAudit
