import ClassAudit.CommandLine.Graph
import ClassAudit.Proofs.OutcomeProperties

/-!
# References of a class

A class with a name has a reference for every method reference of its pool that resolves. A class
without one has none.
-/

set_option autoImplicit false

namespace ClassAudit

theorem Constant.isMethodReference_iff {constant : Constant} :
    constant.isMethodReference = true ↔
      ∃ kind owner signature, constant = .member kind owner signature ∧ kind ≠ .field := by
  cases constant with
  | member kind owner signature => cases kind <;> simp [isMethodReference, tag, MemberKind.tag]
  | _ => simp [isMethodReference, tag]

theorem ClassFile.references_of_named {file : ClassFile} {source : Bytes}
    (named : file.name = .ok source) :
    let outcomes := (file.pool.entries.filter fun entry => entry.2.isMethodReference).map
      fun entry => (file.pool.member entry.1).map (ResolvedMember.reference source)
    file.references = .ok (outcomes.filterMap Except.toOption,
      (outcomes.filter fun outcome => outcome.toOption.isNone).length) := by
  rw [ClassFile.references, named]
  rfl

theorem ClassFile.references_of_unnamed {file : ClassFile} {reason : LookupError}
    (failed : file.name = .error reason) : file.references = .error reason := by
  rw [ClassFile.references, failed]
  rfl

theorem fileReferences_of_ok {file : ClassFile} {references : List Reference} {unresolved : Nat}
    (listed : file.references = .ok (references, unresolved)) (path : Bytes) :
    (fileReferences path (.ok file)).1 = references := by
  simp only [fileReferences, listed]
  cases unresolved with
  | zero => rfl
  | succ count => rfl

theorem fileReferences_of_unnamed {file : ClassFile} {reason : LookupError}
    (failed : file.name = .error reason) (path : Bytes) :
    (fileReferences path (.ok file)).1 = [] := by
  simp only [fileReferences, file.references_of_unnamed failed]

theorem mem_fileReferences {path : Bytes} {file : ClassFile} {reference : Reference} :
    reference ∈ (fileReferences path (.ok file)).1 ↔
      ∃ source, file.name = .ok source ∧
        ∃ entry ∈ file.pool.entries, entry.2.isMethodReference = true ∧
          ∃ member, file.pool.member entry.1 = .ok member ∧
            member.reference source = reference := by
  cases named : file.name with
  | error reason =>
      rw [fileReferences_of_unnamed named]
      simp
  | ok source =>
      rw [fileReferences_of_ok (file.references_of_named named)]
      simp only [List.mem_filterMap, List.mem_map, List.mem_filter, toOption_eq_some_iff]
      constructor
      · intro found
        obtain ⟨_, ⟨entry, ⟨listed, method⟩, rfl⟩, resolved⟩ := found
        cases met : file.pool.member entry.1 with
        | error reason =>
            rw [met] at resolved
            cases resolved
        | ok member =>
            rw [met] at resolved
            cases resolved
            exact ⟨source, rfl, entry, listed, method, member, met, rfl⟩
      · intro found
        obtain ⟨_, same, entry, listed, method, member, met, rfl⟩ := found
        cases same
        refine ⟨_, ⟨entry, ⟨listed, method⟩, rfl⟩, ?_⟩
        rw [met]
        rfl

end ClassAudit
