import ClassAudit.ClassFile.Pool
import ClassAudit.Proofs.LayoutProperties

/-! Lookups in a pool that was made from a sequence of constants. A sequence that fills its
slots gives every constant the index at which it starts, and no other index a constant. -/

set_option autoImplicit false

namespace ClassAudit

theorem Constant.length_poolSlots (constant : Constant) :
    constant.poolSlots.length = constant.slots := by
  unfold Constant.poolSlots Constant.slots
  split <;> rfl

theorem slotAfter_eq_add_length (slot : Nat) (constants : List Constant) :
    slotAfter slot constants = slot + (constants.flatMap Constant.poolSlots).length := by
  induction constants generalizing slot with
  | nil => rfl
  | cons constant constants ih =>
      rw [slotAfter_cons, ih, List.flatMap_cons, List.length_append, constant.length_poolSlots,
        Nat.add_assoc]

/-- The addressable slot at a position, under its index. -/
def slotEntry? : PoolSlot × Nat → Option (PoolIndex × Constant)
  | (.entry constant, position) => some ((position + 1).toUInt16, constant)
  | (.upperHalf, _) => none

theorem Pool.entries_eq_filterMap (pool : Pool) :
    pool.entries = pool.slots.zipIdx.filterMap slotEntry? := rfl

private theorem poolSlots_entries (constants : List Constant) (offset : Nat) :
    ((constants.flatMap Constant.poolSlots).zipIdx offset).filterMap slotEntry? =
      (placedFrom (offset + 1) constants).map fun entry =>
        (entry.1.toUInt16, entry.2.interpreted) := by
  induction constants generalizing offset with
  | nil => rfl
  | cons constant constants ih =>
      have first : (constant.poolSlots.zipIdx offset).filterMap slotEntry? =
          [((offset + 1).toUInt16, constant.interpreted)] := by
        unfold Constant.poolSlots
        split <;> rfl
      rw [List.flatMap_cons, List.zipIdx_append, List.filterMap_append, first, ih,
        constant.length_poolSlots, placedFrom, List.map_cons, List.singleton_append,
        Nat.add_right_comm]

/-- The declared count cuts off nothing but the second half of a wide constant in the last
slot. -/
theorem Pool.slots_append_overhang {count : UInt16} {constants : List Constant}
    (declared : 1 ≤ count.toNat) (fills : FillsSlots count.toNat 1 constants) :
    ∃ overhang, (overhang = [] ∨ overhang = [.upperHalf]) ∧
      constants.flatMap Constant.poolSlots =
        (Pool.ofConstants count constants).slots ++ overhang := by
  obtain ⟨-, ends⟩ := (fillsSlots_iff_ends declared).mp fills
  rw [slotAfter_eq_add_length] at ends
  rcases ends with ended | ⟨ended, last, found, wide⟩
  · refine ⟨[], .inl rfl, ?_⟩
    rw [List.append_nil, Pool.ofConstants, List.take_of_length_le (by omega)]
  · obtain ⟨before, rfl⟩ := List.getLast?_eq_some_iff.mp found
    have shape : (before ++ [last]).flatMap Constant.poolSlots =
        (before.flatMap Constant.poolSlots ++ [.entry last.interpreted]) ++ [.upperHalf] := by
      simp [Constant.poolSlots, wide]
    refine ⟨[.upperHalf], .inr rfl, ?_⟩
    rw [shape] at ended ⊢
    rw [Pool.ofConstants, shape, List.take_left' (by simp at ended ⊢; omega)]

theorem Pool.count_ofConstants {count : UInt16} {constants : List Constant}
    (declared : 1 ≤ count.toNat) (fills : FillsSlots count.toNat 1 constants) :
    (Pool.ofConstants count constants).count = count.toNat := by
  have reached := fills.2
  rw [slotAfter_eq_add_length] at reached
  rw [Pool.count, Pool.ofConstants, List.length_take_of_le (by omega)]
  omega

/-- The addressable entries are the constants in order, each at the slot where it starts. -/
theorem Pool.entries_ofConstants {count : UInt16} {constants : List Constant}
    (declared : 1 ≤ count.toNat) (fills : FillsSlots count.toNat 1 constants) :
    (Pool.ofConstants count constants).entries =
      (placedFrom 1 constants).map fun entry => (entry.1.toUInt16, entry.2.interpreted) := by
  obtain ⟨overhang, isHalf, shape⟩ := Pool.slots_append_overhang declared fills
  have unaddressed : ∀ position, (overhang.zipIdx position).filterMap slotEntry? = [] := by
    intro position
    rcases isHalf with rfl | rfl <;> rfl
  rw [← poolSlots_entries constants 0, shape, List.zipIdx_append, List.filterMap_append,
    unaddressed, List.append_nil, Pool.entries_eq_filterMap]

theorem exists_split_of_mem_placedFrom {start slot : Nat} {constant : Constant}
    {constants : List Constant} (placed : (slot, constant) ∈ placedFrom start constants) :
    ∃ before after, constants = before ++ constant :: after ∧ slotAfter start before = slot := by
  induction constants generalizing start with
  | nil => simp [placedFrom] at placed
  | cons head constants ih =>
      rcases List.mem_cons.mp placed with first | later
      · cases first
        exact ⟨[], constants, rfl, rfl⟩
      · obtain ⟨before, after, rfl, reached⟩ := ih later
        exact ⟨head :: before, after, rfl, reached⟩

/-- A constant is found at the index of the slot where it starts. -/
theorem Pool.entry_of_placed {count : UInt16} {constants : List Constant} {slot : Nat}
    {constant : Constant} (below : slot < count.toNat)
    (placed : (slot, constant) ∈ placedFrom 1 constants) :
    (Pool.ofConstants count constants).entry slot.toUInt16 = .ok constant.interpreted := by
  obtain ⟨before, after, rfl, rfl⟩ := exists_split_of_mem_placedFrom placed
  rw [slotAfter_eq_add_length] at below ⊢
  have bounded := count.toNat_lt
  have index : (1 + (before.flatMap Constant.poolSlots).length).toUInt16.toNat =
      1 + (before.flatMap Constant.poolSlots).length :=
    UInt16.toNat_ofNat_of_lt (Nat.lt_trans below bounded)
  have nonzero : (1 + (before.flatMap Constant.poolSlots).length).toUInt16 ≠ 0 := by
    intro zero
    rw [zero] at index
    simp at index
    omega
  have found : (Pool.ofConstants count (before ++ constant :: after)).slots[
      (before.flatMap Constant.poolSlots).length]? = some (.entry constant.interpreted) := by
    rw [Pool.ofConstants, List.getElem?_take_of_lt (by omega), List.flatMap_append,
      List.getElem?_append_right (Nat.le_refl _), Nat.sub_self, List.flatMap_cons]
    unfold Constant.poolSlots
    split <;> rfl
  simp only [Pool.entry, nonzero, ↓reduceIte, index, Nat.add_sub_cancel_left, found]

end ClassAudit
