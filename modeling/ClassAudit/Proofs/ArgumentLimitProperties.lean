import ClassAudit.Proofs.RuleVerdictProperties

/-!
# Limits on the number of parameters

A method either has a parsed number of parameters, which alone decides whether it exceeds a
limit, or it is broken and violates every limit in the same words. Raising the limit therefore
only takes violations away.
-/

set_option autoImplicit false

namespace ClassAudit

/-! ## Verdicts at every limit -/

theorem tooManyArguments_mem_catalog : RuleKind.tooManyArguments ∈ RuleKind.catalog := by decide

/-- The violation by a method that takes more parameters than a limit allows. -/
def excessViolation (name : Bytes) (count : Nat) (limit : UInt8) : Violation :=
  ⟨name, "method takes " ++ decimal count ++ " parameters, maximum is " ++ decimal limit.toNat,
    .ruleCheck⟩

theorem argumentViolation?_of_parsed {file : ClassFile} {method : Method} {name text : Bytes}
    {parsed : MethodDescriptor} (limit : UInt8)
    (resolved : file.resolveMethod method = .ok (name, text))
    (accepted : MethodDescriptor.parse text = .ok parsed) :
    argumentViolation? limit file method =
      if limit.toNat < parsed.params.length then
        some (excessViolation name parsed.params.length limit)
      else none := by
  simp only [argumentViolation?, resolved, paramCount_of_parse accepted]
  rfl

/-- What the limit has to do with the verdict on a method: nothing where something of the method
is broken, and otherwise only the comparison with the parsed number of parameters. -/
inductive ClassFile.LimitVerdict (file : ClassFile) (method : Method) : Prop
  | broken {violation : Violation} (kind : violation.kind ≠ .ruleCheck)
      (judged : ∀ limit, argumentViolation? limit file method = some violation)
  | counted {name text : Bytes} {parsed : MethodDescriptor}
      (resolved : file.resolveMethod method = .ok (name, text))
      (accepted : MethodDescriptor.parse text = .ok parsed)
      (judged : ∀ limit, argumentViolation? limit file method =
        if limit.toNat < parsed.params.length then
          some (excessViolation name parsed.params.length limit)
        else none)

theorem ClassFile.limitVerdict (file : ClassFile) (method : Method) :
    file.LimitVerdict method := by
  cases file.resolves method with
  | @unnamed reason failed =>
      exact .broken (reason.violation_kind_ne noMethodName) fun limit =>
        (Rule.mk .tooManyArguments limit).violation?_of_unnamed tooManyArguments_mem_catalog failed
  | @undescribed name reason named failed =>
      exact .broken (reason.violation_kind_ne name) fun limit =>
        argumentViolation?_of_undescribed limit named failed
  | @whole name text named described =>
      cases parsed : MethodDescriptor.parse text with
      | error reason =>
          refine .broken ?_ fun limit =>
            argumentViolation?_of_invalid limit (file.methodName_of_ok named) described parsed
          intro kind
          cases kind
      | ok descriptor =>
          have resolved := file.resolveMethod_eq_ok_iff.mpr ⟨named, described⟩
          exact .counted resolved parsed fun limit =>
            argumentViolation?_of_parsed limit resolved parsed

/-! ## Violations by position -/

/-- The violations of a rule with the positions of their methods in the method table. -/
def Rule.placedViolations (rule : Rule) (file : ClassFile) : List (Nat × Violation) :=
  file.methods.zipIdx.filterMap fun entry =>
    (rule.violation? file entry.1).map fun violation => (entry.2, violation)

theorem Rule.map_snd_placedViolations (rule : Rule) (listed : rule.kind ∈ RuleKind.catalog)
    (file : ClassFile) : (rule.placedViolations file).map Prod.snd = rule.violations file := by
  rw [Rule.violations_eq_filterMap listed, Rule.placedViolations, List.map_filterMap]
  conv_rhs => rw [← List.zipIdx_map_fst 0 file.methods, List.filterMap_map]
  congr 1
  funext entry
  rw [Option.map_map]
  exact Option.map_id'

theorem Rule.mem_placedViolations {rule : Rule} {file : ClassFile} {index : Nat}
    {violation : Violation} :
    (index, violation) ∈ rule.placedViolations file ↔
      ∃ method, file.methods[index]? = some method ∧
        rule.violation? file method = some violation := by
  simp only [Rule.placedViolations, List.mem_filterMap, Option.map_eq_some_iff, Prod.mk.injEq]
  constructor
  · intro found
    obtain ⟨entry, member, found, reported, position, rfl⟩ := found
    exact ⟨entry.1, position ▸ List.mem_zipIdx_iff_getElem?.mp member, reported⟩
  · intro found
    obtain ⟨method, present, reported⟩ := found
    exact ⟨(method, index), List.mk_mem_zipIdx_iff_getElem?.mpr present, violation, reported, rfl,
      rfl⟩

/-- The positions of the methods that violate a rule, in the order of the method table. -/
def Rule.violators (rule : Rule) (file : ClassFile) : List Nat :=
  (rule.placedViolations file).map Prod.fst

theorem Rule.mem_violators {rule : Rule} {file : ClassFile} {index : Nat} :
    index ∈ rule.violators file ↔
      ∃ method violation, file.methods[index]? = some method ∧
        rule.violation? file method = some violation := by
  simp only [Rule.violators, List.mem_map, Prod.exists, exists_and_right, exists_eq_right,
    Rule.mem_placedViolations]
  exact exists_comm

theorem filterMap_sublist_of_imp {α β : Type} {first second : α → Option β} {items : List α}
    (kept : ∀ item ∈ items, ∀ value, first item = some value → second item = some value) :
    (items.filterMap first).Sublist (items.filterMap second) := by
  induction items with
  | nil => exact .slnil
  | cons item items ih =>
      have rest := ih fun other member => kept other (List.mem_cons_of_mem _ member)
      cases found : first item with
      | none =>
          rw [List.filterMap_cons_none found]
          exact rest.trans ((List.sublist_cons_self item items).filterMap second)
      | some value =>
          rw [List.filterMap_cons_some found,
            List.filterMap_cons_some (kept item List.mem_cons_self value found)]
          exact rest.cons_cons value

/-! ## Two limits -/

/-- A limit that is exceeded stays exceeded when it is lowered. -/
theorem argumentViolation?_of_le {file : ClassFile} {method : Method} {lower upper : UInt8}
    {violation : Violation} (raised : lower ≤ upper)
    (reported : argumentViolation? upper file method = some violation) :
    ∃ stricter, argumentViolation? lower file method = some stricter := by
  cases file.limitVerdict method with
  | broken kind judged => exact ⟨_, judged lower⟩
  | counted resolved accepted judged =>
      rw [judged upper] at reported
      split at reported
      · rename_i exceeded
        exact ⟨_, (judged lower).trans (if_pos (Nat.lt_of_le_of_lt raised exceeded))⟩
      · cases reported

theorem argumentRule_violators_sublist {lower upper : UInt8} (raised : lower ≤ upper)
    (file : ClassFile) :
    ((Rule.mk .tooManyArguments upper).violators file).Sublist
      ((Rule.mk .tooManyArguments lower).violators file) := by
  simp only [Rule.violators, Rule.placedViolations, List.map_filterMap, Option.map_map]
  refine filterMap_sublist_of_imp ?_
  intro entry _ index found
  obtain ⟨violation, reported, position⟩ := Option.map_eq_some_iff.mp found
  obtain ⟨stricter, stricterReported⟩ := argumentViolation?_of_le raised reported
  exact Option.map_eq_some_iff.mpr ⟨stricter, stricterReported, position⟩

theorem argumentRule_broken_alike (lower upper : UInt8) (file : ClassFile) :
    ((Rule.mk .tooManyArguments lower).placedViolations file).filter
        (fun placed => placed.2.kind ≠ .ruleCheck) =
      ((Rule.mk .tooManyArguments upper).placedViolations file).filter
        (fun placed => placed.2.kind ≠ .ruleCheck) := by
  simp only [Rule.placedViolations, List.filter_filterMap, Rule.violation?]
  congr 1
  funext entry
  cases file.limitVerdict entry.1 with
  | broken kind judged => rw [judged lower, judged upper]
  | counted resolved accepted judged =>
      -- a violation by the number of parameters is filtered out on either side
      have dropped : ∀ limit : UInt8,
          ((argumentViolation? limit file entry.1).map fun violation =>
            (entry.2, violation)).filter (fun placed => decide (placed.2.kind ≠ .ruleCheck)) =
              none := by
        intro limit
        rw [judged limit]
        split <;> rfl
      rw [dropped lower, dropped upper]

/-- The positions that only the lower limit objects to are those with a number of parameters
between the two. -/
theorem mem_violators_between_iff {lower upper : UInt8} {file : ClassFile} {index : Nat} :
    (index ∈ (Rule.mk .tooManyArguments lower).violators file ∧
        index ∉ (Rule.mk .tooManyArguments upper).violators file) ↔
      ∃ method name text parsed, file.methods[index]? = some method ∧
        file.resolveMethod method = .ok (name, text) ∧
        MethodDescriptor.parse text = .ok parsed ∧
        lower.toNat < parsed.params.length ∧ parsed.params.length ≤ upper.toNat := by
  simp only [Rule.mem_violators, Rule.violation?]
  constructor
  · intro found
    obtain ⟨⟨method, violation, present, reported⟩, spared⟩ := found
    have unreported : argumentViolation? upper file method = none := by
      cases judged : argumentViolation? upper file method with
      | none => rfl
      | some other => exact absurd ⟨method, other, present, judged⟩ spared
    cases file.limitVerdict method with
    | broken kind judged =>
        rw [judged upper] at unreported
        cases unreported
    | counted resolved accepted judged =>
        rw [judged lower] at reported
        rw [judged upper] at unreported
        split at reported
        · rename_i exceeded
          split at unreported
          · cases unreported
          · rename_i within
            exact ⟨method, _, _, _, present, resolved, accepted, exceeded, Nat.le_of_not_lt within⟩
        · cases reported
  · intro found
    obtain ⟨method, name, text, parsed, present, resolved, accepted, exceeded, within⟩ := found
    refine ⟨⟨method, _, present,
      (argumentViolation?_of_parsed lower resolved accepted).trans (if_pos exceeded)⟩, ?_⟩
    intro reported
    obtain ⟨other, violation, otherPresent, reported⟩ := reported
    cases present.symm.trans otherPresent
    rw [argumentViolation?_of_parsed upper resolved accepted,
      if_neg (Nat.not_lt.mpr within)] at reported
    cases reported

/-- The rule on the number of parameters is antitone in its limit. The positions that violate a
higher limit are a subsequence of those that violate a lower one, and those lost are the ones
whose parsed number of parameters lies between the two. Violations of other kinds are the same
for all limits, at the same positions. -/
theorem argument_rule_antitone_in_limit (display : Bytes) (file : ClassFile) :
    (∀ limit, (evaluate display file ⟨.tooManyArguments, limit⟩).violations =
      ((Rule.mk .tooManyArguments limit).placedViolations file).map Prod.snd) ∧
    (∀ lower upper : UInt8,
      ((Rule.mk .tooManyArguments lower).placedViolations file).filter
          (fun placed => placed.2.kind ≠ .ruleCheck) =
        ((Rule.mk .tooManyArguments upper).placedViolations file).filter
          (fun placed => placed.2.kind ≠ .ruleCheck)) ∧
    ∀ lower upper : UInt8, lower ≤ upper →
      ((Rule.mk .tooManyArguments upper).violators file).Sublist
        ((Rule.mk .tooManyArguments lower).violators file) ∧
      ∀ index,
        (index ∈ (Rule.mk .tooManyArguments lower).violators file ∧
            index ∉ (Rule.mk .tooManyArguments upper).violators file) ↔
          ∃ method name text parsed, file.methods[index]? = some method ∧
            file.resolveMethod method = .ok (name, text) ∧
            MethodDescriptor.parse text = .ok parsed ∧
            lower.toNat < parsed.params.length ∧ parsed.params.length ≤ upper.toNat := by
  refine ⟨?_, fun lower upper => argumentRule_broken_alike lower upper file, ?_⟩
  · intro limit
    exact ((Rule.mk .tooManyArguments limit).map_snd_placedViolations
      tooManyArguments_mem_catalog file).symm
  · intro lower upper raised
    exact ⟨argumentRule_violators_sublist raised file, fun index => mem_violators_between_iff⟩

theorem argument_rule_antitone_in_limit_mixed :
    (1 : UInt8) ≤ 2 ∧ ∃ file, decode .bestEffort (brokenDescriptorClass.encode ++ []) = .ok file ∧
      ((Rule.mk .tooManyArguments 2).violators file).Sublist
        ((Rule.mk .tooManyArguments 1).violators file) ∧
      2 ∈ (Rule.mk .tooManyArguments 1).violators file ∧
      2 ∉ (Rule.mk .tooManyArguments 2).violators file := by
  refine ⟨by decide, _, decode_encode (by decide) [], ?_⟩
  obtain ⟨kept, between⟩ := (argument_rule_antitone_in_limit []
    (brokenDescriptorClass.interpret ⟨brokenDescriptorClass.encode.length, []⟩)).2.2 1 2 (by decide)
  refine ⟨kept, (between 2).mpr ⟨⟨57, 1, 1, 3, 0⟩, "f", "(II)V",
    ⟨[⟨0, .letter 0x49⟩, ⟨0, .letter 0x49⟩], .void⟩, by decide, by decide, ?_, by decide,
    by decide⟩⟩
  exact MethodDescriptor.parse_eq_ok_iff.mpr (by decide)

end ClassAudit
