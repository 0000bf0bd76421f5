import Mathlib.Data.List.Forall2

/-!
# Outcomes

What the success or failure of a sequence, or of a list of attempts, says of its parts.
-/

set_option autoImplicit false

namespace ClassAudit

/-! ## Sequences -/

/-- A successful sequence is a success of its first part, followed by a success of the
rest. -/
theorem bind_eq_ok {ε α β : Type} {first : Except ε α} {rest : α → Except ε β} {result : β}
    (success : first >>= rest = .ok result) :
    ∃ value, first = .ok value ∧ rest value = .ok result := by
  cases first with
  | error error => cases success
  | ok value => exact ⟨value, rfl, success⟩

theorem bind_eq_error_iff {ε α β : Type} {first : Except ε α} {rest : α → Except ε β}
    {error : ε} :
    first >>= rest = .error error ↔
      first = .error error ∨ ∃ value, first = .ok value ∧ rest value = .error error := by
  cases first with
  | error other => simp [bind, Except.bind]
  | ok value => simp [bind, Except.bind]

theorem mapError_eq_ok_iff {ε ε' α : Type} {f : ε → ε'} {outcome : Except ε α} {value : α} :
    outcome.mapError f = .ok value ↔ outcome = .ok value := by
  cases outcome with
  | error error => simp [Except.mapError]
  | ok found => simp [Except.mapError]

theorem map_eq_ok_iff {ε α β : Type} {f : α → β} {outcome : Except ε α} {value : β} :
    outcome.map f = .ok value ↔ ∃ found, outcome = .ok found ∧ value = f found := by
  cases outcome with
  | error error => simp [Except.map]
  | ok found => simp [Except.map, eq_comm]

theorem toOption_eq_some_iff {ε α : Type} {outcome : Except ε α} {value : α} :
    outcome.toOption = some value ↔ outcome = .ok value := by
  cases outcome with
  | error reason => simp [Except.toOption]
  | ok found => simp [Except.toOption]

theorem isSome_toOption_iff {ε α : Type} {outcome : Except ε α} :
    outcome.toOption.isSome = true ↔ ∃ value, outcome = .ok value := by
  rw [Option.isSome_iff_exists]
  simp only [toOption_eq_some_iff]

/-! ## Lists of attempts -/

theorem mem_of_mapM {α β ε : Type} {items : List α} {outcomes : List β} {f : α → Except ε β}
    (mapped : items.mapM f = .ok outcomes) {item : α} (member : item ∈ items) :
    ∃ outcome ∈ outcomes, f item = .ok outcome := by
  induction items generalizing outcomes with
  | nil => cases member
  | cons first items ih =>
      rw [List.mapM_cons] at mapped
      obtain ⟨value, here, mapped⟩ := bind_eq_ok mapped
      obtain ⟨values, others, mapped⟩ := bind_eq_ok mapped
      cases mapped
      rcases List.mem_cons.mp member with rfl | member
      · exact ⟨value, List.mem_cons_self, here⟩
      · obtain ⟨outcome, listed, found⟩ := ih others member
        exact ⟨outcome, List.mem_cons_of_mem value listed, found⟩

section

variable {ε α β : Type} (outcome : α → Except ε β) (items : List α)

/-- The successes of a list of lookups belong to the items that were found, in their order. -/
theorem forall₂_successes :
    List.Forall₂ (fun item found => outcome item = .ok found)
      (items.filter fun item => (outcome item).toOption.isSome)
      ((items.map outcome).filterMap Except.toOption) := by
  induction items with
  | nil => exact .nil
  | cons item items ih =>
      cases met : outcome item with
      | error reason =>
          have none : (outcome item).toOption = none := by rw [met]; rfl
          rw [List.map_cons, List.filterMap_cons_none none,
            List.filter_cons_of_neg (by simp [none])]
          exact ih
      | ok found =>
          have some : (outcome item).toOption = some found := by rw [met]; rfl
          rw [List.map_cons, List.filterMap_cons_some some,
            List.filter_cons_of_pos (by simp [some])]
          exact .cons met ih

theorem length_successes_add_failures :
    ((items.map outcome).filterMap Except.toOption).length +
        ((items.map outcome).filter fun met => met.toOption.isNone).length = items.length := by
  induction items with
  | nil => rfl
  | cons item items ih =>
      cases met : (outcome item).toOption with
      | none =>
          rw [List.map_cons, List.filterMap_cons_none met, List.filter_cons_of_pos (by simp [met]),
            List.length_cons, List.length_cons, ← Nat.add_assoc, ih]
      | some found =>
          rw [List.map_cons, List.filterMap_cons_some met, List.filter_cons_of_neg (by simp [met]),
            List.length_cons, List.length_cons, Nat.add_right_comm, ih]

end

end ClassAudit
