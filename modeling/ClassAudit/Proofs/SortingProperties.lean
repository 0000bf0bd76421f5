import ClassAudit.Reference.Gathering
import Mathlib.Data.List.Basic
import Mathlib.Data.Prod.Basic

/-!
# Orders that sorting depends on

Byte strings, the ends of edges and ranked classes are totally ordered, and the comparisons
that sorts use are the strict parts of these orders. A sort by such a comparison has only one
outcome, whatever order its items come in.
-/

set_option autoImplicit false

namespace ClassAudit

/-- An order in which any two items can be compared and only equal ones are level. -/
structure TotalOrder {α : Type} (le : α → α → Bool) : Prop where
  trans : ∀ first second third,
    le first second = true → le second third = true → le first third = true
  total : ∀ first second, (le first second || le second first) = true
  antisymm : ∀ first second, le first second = true → le second first = true → first = second

/-! ## Byte strings -/

namespace Bytes

theorem cons_le_cons {left right : UInt8} {lefts rights : Bytes} :
    le (left :: lefts) (right :: rights) = true ↔
      left < right ∨ left = right ∧ le lefts rights = true := by
  rw [le]
  by_cases below : left < right
  · simp only [below, if_true, true_or]
  · by_cases above : right < left
    · simp only [below, above, if_false, if_true, false_or, Bool.false_eq_true, false_iff]
      intro level
      exact UInt8.lt_irrefl _ (level.1 ▸ above)
    · have level : left = right := UInt8.le_antisymm (UInt8.not_lt.mp above) (UInt8.not_lt.mp below)
      rw [if_neg below, if_neg above]
      simp only [level, UInt8.lt_irrefl, false_or, true_and]

theorem le_trans (first second third : Bytes) (lower : first.le second = true)
    (upper : second.le third = true) : first.le third = true := by
  induction first generalizing second third with
  | nil => rfl
  | cons head tail ih =>
      cases second with
      | nil => cases lower
      | cons middle middles =>
          cases third with
          | nil => cases upper
          | cons last lasts =>
              rw [cons_le_cons] at lower upper ⊢
              rcases lower with below | ⟨rfl, lower⟩
              · rcases upper with above | ⟨rfl, _⟩
                · exact .inl (UInt8.lt_trans below above)
                · exact .inl below
              · rcases upper with above | ⟨rfl, upper⟩
                · exact .inl above
                · exact .inr ⟨rfl, ih _ _ lower upper⟩

theorem le_total (left right : Bytes) : (left.le right || right.le left) = true := by
  induction left generalizing right with
  | nil => rfl
  | cons head tail ih =>
      cases right with
      | nil => rfl
      | cons other others =>
          rw [Bool.or_eq_true, cons_le_cons, cons_le_cons]
          by_cases level : head = other
          · rcases Bool.or_eq_true_iff.mp (ih others) with forth | back
            · exact .inl (.inr ⟨level, forth⟩)
            · exact .inr (.inr ⟨level.symm, back⟩)
          · rcases UInt8.lt_or_lt_of_ne level with below | above
            · exact .inl (.inl below)
            · exact .inr (.inl above)

theorem le_antisymm (left right : Bytes) (forth : left.le right = true)
    (back : right.le left = true) : left = right := by
  induction left generalizing right with
  | nil =>
      cases right with
      | nil => rfl
      | cons => cases back
  | cons head tail ih =>
      cases right with
      | nil => cases forth
      | cons other others =>
          rw [cons_le_cons] at forth back
          rcases forth with below | ⟨rfl, forth⟩
          · rcases back with above | ⟨rfl, _⟩
            · exact absurd above (UInt8.lt_asymm below)
            · exact absurd below (UInt8.lt_irrefl _)
          · rcases back with above | ⟨_, back⟩
            · exact absurd above (UInt8.lt_irrefl _)
            · rw [ih others forth back]

theorem totalOrder : TotalOrder Bytes.le := ⟨le_trans, le_total, le_antisymm⟩

end Bytes

/-! ## Composed orders -/

/-- Pairs by their first components, and those that agree there by their second ones. -/
def lexicographic {α β : Type} [DecidableEq α] (first : α → α → Bool) (second : β → β → Bool)
    (left right : α × β) : Bool :=
  if left.1 = right.1 then second left.2 right.2 else first left.1 right.1

theorem lexicographic_iff {α β : Type} [DecidableEq α] {first : α → α → Bool}
    {second : β → β → Bool} {left right : α × β} :
    lexicographic first second left right = true ↔
      left.1 = right.1 ∧ second left.2 right.2 = true ∨
        left.1 ≠ right.1 ∧ first left.1 right.1 = true := by
  unfold lexicographic
  by_cases level : left.1 = right.1 <;>
    simp only [level, if_true, if_false, ne_eq, not_true, not_false_eq_true, false_and, true_and,
      or_false, false_or]

namespace TotalOrder

variable {α β : Type} {first : α → α → Bool} {second : β → β → Bool}

theorem lexicographic [DecidableEq α] (primary : TotalOrder first)
    (secondary : TotalOrder second) : TotalOrder (lexicographic first second) where
  trans low middle high lower upper := by
    rw [lexicographic_iff] at lower upper ⊢
    rcases lower with ⟨levelLow, lower⟩ | ⟨apartLow, lower⟩
    · rcases upper with ⟨levelHigh, upper⟩ | ⟨apartHigh, upper⟩
      · exact .inl ⟨levelLow.trans levelHigh, secondary.trans _ _ _ lower upper⟩
      · rw [levelLow]
        exact .inr ⟨apartHigh, upper⟩
    · rcases upper with ⟨levelHigh, upper⟩ | ⟨apartHigh, upper⟩
      · rw [← levelHigh]
        exact .inr ⟨apartLow, lower⟩
      · refine .inr ⟨?_, primary.trans _ _ _ lower upper⟩
        -- what lies between two equal first components equals them
        intro level
        rw [← level] at upper
        exact apartLow (primary.antisymm _ _ lower upper)
  total left right := by
    rw [Bool.or_eq_true, lexicographic_iff, lexicographic_iff]
    by_cases level : left.1 = right.1
    · rcases Bool.or_eq_true_iff.mp (secondary.total left.2 right.2) with forth | back
      · exact .inl (.inl ⟨level, forth⟩)
      · exact .inr (.inl ⟨level.symm, back⟩)
    · rcases Bool.or_eq_true_iff.mp (primary.total left.1 right.1) with forth | back
      · exact .inl (.inr ⟨level, forth⟩)
      · exact .inr (.inr ⟨Ne.symm level, back⟩)
  antisymm left right forth back := by
    rw [lexicographic_iff] at forth back
    rcases forth with ⟨level, forth⟩ | ⟨apart, forth⟩
    · rcases back with ⟨_, back⟩ | ⟨apart, _⟩
      · exact Prod.ext level (secondary.antisymm _ _ forth back)
      · exact absurd level.symm apart
    · rcases back with ⟨level, _⟩ | ⟨_, back⟩
      · exact absurd level.symm apart
      · exact absurd (primary.antisymm _ _ forth back) apart

end TotalOrder

/-- The order of the ends of edges: by source, then by target. -/
def endsLe : Bytes × Bytes → Bytes × Bytes → Bool := lexicographic Bytes.le Bytes.le

theorem endsLe_totalOrder : TotalOrder endsLe := Bytes.totalOrder.lexicographic Bytes.totalOrder

theorem mayPrecede_totalOrder : TotalOrder mayPrecede := by
  have falling : TotalOrder fun left right : Nat => decide (right ≤ left) := by
    constructor
    · intro first second third lower upper
      rw [decide_eq_true_eq] at lower upper ⊢
      exact Nat.le_trans upper lower
    · intro first second
      rw [Bool.or_eq_true, decide_eq_true_eq, decide_eq_true_eq]
      exact Nat.le_total second first
    · intro first second forth back
      rw [decide_eq_true_eq] at forth back
      exact Nat.le_antisymm back forth
  have order := falling.lexicographic Bytes.totalOrder
  constructor
  · intro first second third
    exact order.trans first.swap second.swap third.swap
  · intro first second
    exact order.total first.swap second.swap
  · intro first second forth back
    exact Prod.swap_injective (order.antisymm first.swap second.swap forth back)

/-! ## The comparisons of sorts -/

/-- Whether `before` is the strict part of an order. -/
def StrictPart {α : Type} (before le : α → α → Bool) : Prop :=
  ∀ left right, before left right = !le right left

theorem endsBefore_strictPart : StrictPart endsBefore endsLe := by
  intro left right
  unfold endsBefore endsLe lexicographic Bytes.lt
  by_cases level : left.1 = right.1
  · rw [if_pos level, if_pos level.symm]
  · rw [if_neg level, if_neg (Ne.symm level)]

theorem ranksBefore_strictPart : StrictPart ranksBefore mayPrecede := by
  intro left right
  unfold ranksBefore mayPrecede Bytes.lt
  by_cases level : left.2 = right.2
  · rw [if_pos level, if_pos level.symm]
  · rw [if_neg level, if_neg (Ne.symm level)]
    simp only [← Nat.not_le, decide_not]

section

variable {α : Type} {before le : α → α → Bool} {items others sorted resorted : List α}

theorem StrictPart.eq_false_iff (strict : StrictPart before le) {earlier later : α} :
    before later earlier = false ↔ le earlier later = true := by
  rw [strict later earlier, Bool.not_eq_false']

theorem SortsTo.pairwise (sorts : SortsTo before items sorted) (strict : StrictPart before le) :
    sorted.Pairwise fun earlier later => le earlier later = true :=
  sorts.ordered.imp strict.eq_false_iff.mp

theorem sortsTo_mergeSort (order : TotalOrder le) (strict : StrictPart before le) :
    SortsTo before items (items.mergeSort le) where
  perm := items.mergeSort_perm le
  ordered := (List.pairwise_mergeSort order.trans order.total items).imp strict.eq_false_iff.mpr

/-- A sort puts items into any order in which each rises above the one before. -/
theorem mergeSort_eq_of_rising
    (trans : ∀ first second third,
      le first second = true → le second third = true → le first third = true)
    (total : ∀ first second, (le first second || le second first) = true)
    (same : items.Perm sorted)
    (rising : sorted.Pairwise fun earlier later => le later earlier = false) :
    items.mergeSort le = sorted := by
  have below : ∀ earlier later, le later earlier = false → le earlier later = true := by
    intro earlier later above
    have either := total earlier later
    rwa [above, Bool.or_false] at either
  have level : ∀ left ∈ sorted, ∀ right ∈ sorted,
      le left right = true → le right left = true → left = right := by
    refine List.Pairwise.forall_of_forall_of_flip (fun _ _ _ _ => rfl) (rising.imp ?_)
      (rising.imp ?_)
    · intro earlier later above _ back
      exact absurd (above.symm.trans back) Bool.false_ne_true
    · intro earlier later above forth _
      exact absurd (above.symm.trans forth) Bool.false_ne_true
  have shuffled : (items.mergeSort le).Perm sorted := (items.mergeSort_perm le).trans same
  refine shuffled.eq_of_pairwise ?_ (List.pairwise_mergeSort trans total items)
    (rising.imp (below _ _))
  intro left right member
  exact level left (shuffled.mem_iff.mp member) right

/-- Sorting the same items by the strict part of a total order leaves no choice. -/
theorem SortsTo.unique (sorts : SortsTo before items sorted)
    (resorts : SortsTo before others resorted) (order : TotalOrder le)
    (strict : StrictPart before le) (same : items.Perm others) : sorted = resorted := by
  have level : ∀ left right, left ∈ sorted → right ∈ resorted →
      le left right = true → le right left = true → left = right :=
    fun left right _ _ => order.antisymm left right
  have shuffled : sorted.Perm resorted := sorts.perm.trans (same.trans resorts.perm.symm)
  exact shuffled.eq_of_pairwise level (sorts.pairwise strict) (resorts.pairwise strict)

end

end ClassAudit
