import ClassAudit.Reference.Gathering
import Mathlib.Data.List.Induction
import Mathlib.Data.List.Nodup

/-!
# What is gathered from references

Gathering counts every method of an edge once and ORs its interface marks, so that what is
gathered depends only on the set of references: neither their order nor repetitions matter. The
gathered edges are the edges of the drawing.
-/

set_option autoImplicit false

namespace ClassAudit

/-! ## First occurrences -/

section

variable {α : Type} [DecidableEq α]

theorem firstOccurrences_concat (items : List α) (item : α) :
    firstOccurrences (items ++ [item]) =
      if (firstOccurrences items).contains item then firstOccurrences items
      else firstOccurrences items ++ [item] := by
  simp only [firstOccurrences, List.foldl_append, List.foldl_cons, List.foldl_nil,
    List.contains_reverse]
  split
  · rfl
  · exact List.reverse_cons

theorem mem_firstOccurrences {items : List α} {item : α} :
    item ∈ firstOccurrences items ↔ item ∈ items := by
  induction items using List.reverseRecOn with
  | nil => rfl
  | append_singleton items last ih =>
      rw [firstOccurrences_concat, List.mem_append, List.mem_singleton, ← ih]
      split
      · rename_i known
        constructor
        · exact .inl
        · intro member
          rcases member with member | rfl
          · exact member
          · exact List.contains_iff_mem.mp known
      · rw [List.mem_append, List.mem_singleton]

theorem nodup_firstOccurrences (items : List α) : (firstOccurrences items).Nodup := by
  induction items using List.reverseRecOn with
  | nil => exact List.nodup_nil
  | append_singleton items last ih =>
      rw [firstOccurrences_concat]
      split
      · exact ih
      · rename_i fresh
        rw [← List.concat_eq_append]
        have unmet : last ∉ firstOccurrences items :=
          fun member => fresh (List.contains_iff_mem.mpr member)
        exact List.Nodup.concat unmet ih

theorem firstOccurrences_concat_of_mem {items : List α} {item : α} (known : item ∈ items) :
    firstOccurrences (items ++ [item]) = firstOccurrences items := by
  rw [firstOccurrences_concat, if_pos]
  exact List.contains_iff_mem.mpr (mem_firstOccurrences.mpr known)

theorem firstOccurrences_concat_of_not_mem {items : List α} {item : α} (fresh : item ∉ items) :
    firstOccurrences (items ++ [item]) = firstOccurrences items ++ [item] := by
  rw [firstOccurrences_concat, if_neg]
  intro known
  exact fresh (mem_firstOccurrences.mp (List.contains_iff_mem.mp known))

theorem length_firstOccurrences_congr {left right : List α}
    (same : ∀ item, item ∈ left ↔ item ∈ right) :
    (firstOccurrences left).length = (firstOccurrences right).length := by
  refine ((List.perm_ext_iff_of_nodup (nodup_firstOccurrences left)
    (nodup_firstOccurrences right)).mpr ?_).length_eq
  intro item
  rw [mem_firstOccurrences, mem_firstOccurrences, same item]

end

/-- Items that were made from distinct labels have distinct labels. -/
theorem nodup_map_label {α β : Type} {labels : List α} {make : α → β} {label : β → α}
    (kept : ∀ item, label (make item) = item) (distinct : labels.Nodup) :
    ((labels.map make).map label).Nodup := by
  have same : label ∘ make = id := funext kept
  rw [List.map_map, same, List.map_id]
  exact distinct

/-! ## Tables -/

namespace Table

variable {κ ν : Type}

@[simp] theorem set_same [DecidableEq κ] (table : Table κ ν) (key : κ) (value : ν) :
    table.set key value key = some value := if_pos rfl

theorem set_of_ne [DecidableEq κ] (table : Table κ ν) {key other : κ} (value : ν)
    (apart : other ≠ key) : table.set key value other = table other := if_neg apart

/-- The table that holds one value, under the members of a list. -/
def constant [DecidableEq κ] (keys : List κ) (value : ν) : Table κ ν := fun key =>
  if keys.contains key then some value else none

section

variable [DecidableEq κ] {keys : List κ} {key : κ} {value : ν}

theorem constant_eq_some_iff {other : ν} :
    constant keys value key = some other ↔ key ∈ keys ∧ value = other := by
  rw [constant, ← List.contains_iff_mem]
  cases keys.contains key <;> simp

theorem has_constant : (constant keys true).has key = true ↔ key ∈ keys := by
  rw [← List.contains_iff_mem]
  unfold has constant
  cases keys.contains key <;> decide

theorem getD_constant (keys : List κ) (value : ν) (key : κ) :
    (constant keys value key).getD value = value := by
  unfold constant
  cases keys.contains key <;> rfl

theorem constant_congr {left right : List κ} (same : ∀ key, key ∈ left ↔ key ∈ right)
    (value : ν) : constant left value = constant right value := by
  funext key
  have alike : left.contains key = right.contains key := by
    rw [Bool.eq_iff_iff, List.contains_iff_mem, List.contains_iff_mem, same key]
  simp only [constant, alike]

theorem constant_concat (keys : List κ) (key : κ) (value : ν) :
    constant (keys ++ [key]) value = (constant keys value).set key value := by
  funext other
  by_cases same : other = key
  · rw [same, set_same]
    simp [constant]
  · rw [set_of_ne _ _ same]
    simp [constant, same]

theorem constant_concat_of_mem (known : key ∈ keys) (value : ν) :
    constant (keys ++ [key]) value = constant keys value := by
  refine constant_congr ?_ value
  intro other
  rw [List.mem_append, List.mem_singleton]
  constructor
  · intro member
    rcases member with member | rfl
    · exact member
    · exact known
  · exact .inl

theorem foldl_set (keys : List κ) (value : ν) :
    keys.foldl (fun table key => table.set key value) empty = constant keys value := by
  induction keys using List.reverseRecOn with
  | nil => rfl
  | append_singleton keys key ih =>
      rw [List.foldl_append, List.foldl_cons, List.foldl_nil, ih, constant_concat]

end

namespace Lists

variable {table : Table κ ν} {entries others : List (κ × ν)}

theorem nodup (listed : table.Lists entries) : entries.Nodup :=
  List.Nodup.of_map Prod.fst listed.distinct

/-- Going through a table twice meets the same entries. -/
theorem perm (listed : table.Lists entries) (again : table.Lists others) :
    entries.Perm others := by
  refine (List.perm_ext_iff_of_nodup listed.nodup again.nodup).mpr ?_
  intro entry
  exact (listed.mem_iff entry.1 entry.2).trans (again.mem_iff entry.1 entry.2).symm

end Lists

end Table

/-! ## Tallies -/

/-- What a list of references of one edge comes to. -/
def EdgeTally.of (references : List Reference) : EdgeTally where
  methods := .constant (references.map Reference.method) true
  weight := (firstOccurrences (references.map Reference.method)).length
  dispatch := references.any Reference.viaInterface

/-- Counting one more reference is counting the longer list. -/
theorem EdgeTally.of_concat (references : List Reference) (reference : Reference) :
    EdgeTally.of (references ++ [reference]) = (EdgeTally.of references).add reference := by
  have marked : (references ++ [reference]).any Reference.viaInterface =
      (references.any Reference.viaInterface || reference.viaInterface) := by
    simp only [List.any_append, List.any_cons, List.any_nil, Bool.or_false]
  by_cases met : reference.method ∈ references.map Reference.method
  · have seen : (EdgeTally.of references).methods.has reference.method = true :=
      Table.has_constant.mpr met
    simp only [EdgeTally.add, if_pos seen]
    simp only [EdgeTally.of, List.map_append, List.map_cons, List.map_nil, marked,
      Table.constant_concat_of_mem met true, firstOccurrences_concat_of_mem met]
  · have unseen : ¬ (EdgeTally.of references).methods.has reference.method = true :=
      mt Table.has_constant.mp met
    simp only [EdgeTally.add, if_neg unseen]
    simp only [EdgeTally.of, List.map_append, List.map_cons, List.map_nil, marked,
      Table.constant_concat, firstOccurrences_concat_of_not_mem met, List.length_append,
      List.length_cons, List.length_nil]

theorem EdgeTally.of_congr {left right : List Reference}
    (same : ∀ reference, reference ∈ left ↔ reference ∈ right) :
    EdgeTally.of left = EdgeTally.of right := by
  have methods : ∀ method,
      method ∈ left.map Reference.method ↔ method ∈ right.map Reference.method := by
    simp only [List.mem_map, same, implies_true]
  have marked : left.any Reference.viaInterface = right.any Reference.viaInterface := by
    rw [Bool.eq_iff_iff, List.any_eq_true, List.any_eq_true]
    simp only [same]
  rw [EdgeTally.of, EdgeTally.of, Table.constant_congr methods true,
    length_firstOccurrences_congr methods, marked]

/-! ## Gathered references -/

/-- The references of an edge, in order. -/
def referencesBetween (references : List Reference) (ends : Bytes × Bytes) : List Reference :=
  (references.filter fun reference => !reference.isInternal).filter fun reference =>
    reference.source == ends.1 && reference.owner == ends.2

theorem mem_referencesBetween {references : List Reference} {ends : Bytes × Bytes}
    {reference : Reference} :
    reference ∈ referencesBetween references ends ↔
      reference ∈ references ∧ reference.isInternal = false ∧
        (reference.source, reference.owner) = ends := by
  simp only [referencesBetween, List.mem_filter, Bool.not_eq_true', Bool.and_eq_true, beq_iff_eq,
    and_assoc, Prod.ext_iff]

theorem referencesBetween_concat_of_mem {references : List Reference} {reference : Reference}
    (outward : reference.isInternal = false) :
    referencesBetween (references ++ [reference]) (reference.source, reference.owner) =
      referencesBetween references (reference.source, reference.owner) ++ [reference] := by
  simp [referencesBetween, List.filter_append, outward]

theorem referencesBetween_concat_of_not {references : List Reference} {reference : Reference}
    {ends : Bytes × Bytes}
    (apart : reference.isInternal = false → ends ≠ (reference.source, reference.owner)) :
    referencesBetween (references ++ [reference]) ends = referencesBetween references ends := by
  have dropped : referencesBetween [reference] ends = [] := by
    refine List.eq_nil_iff_forall_not_mem.mpr ?_
    intro other member
    obtain ⟨single, outward, same⟩ := mem_referencesBetween.mp member
    rw [List.mem_singleton] at single
    subst single
    exact apart outward same.symm
  rw [referencesBetween, List.filter_append, List.filter_append]
  exact (congrArg (_ ++ ·) dropped).trans (List.append_nil _)

theorem gather_concat (references : List Reference) (reference : Reference) :
    gather (references ++ [reference]) = (gather references).add reference := by
  rw [gather, List.foldl_append]
  rfl

theorem Gathering.inputs_add (gathered : Gathering) (reference : Reference) :
    (gathered.add reference).inputs = gathered.inputs.set reference.source true := by
  unfold Gathering.add
  cases reference.isInternal <;> rfl

theorem Gathering.edges_add_of_internal (gathered : Gathering) {reference : Reference}
    (inward : reference.isInternal = true) : (gathered.add reference).edges = gathered.edges := by
  simp only [Gathering.add, inward, if_true]

theorem Gathering.edges_add_of_outward (gathered : Gathering) {reference : Reference}
    (outward : reference.isInternal = false) :
    (gathered.add reference).edges =
      gathered.edges.set (reference.source, reference.owner)
        (((gathered.edges (reference.source, reference.owner)).getD .empty).add reference) := by
  simp only [Gathering.add, outward, Bool.false_eq_true, if_false]

theorem gather_inputs (references : List Reference) :
    (gather references).inputs = .constant (references.map Reference.source) true := by
  induction references using List.reverseRecOn with
  | nil => rfl
  | append_singleton references reference ih =>
      rw [gather_concat, Gathering.inputs_add, ih, List.map_append, List.map_singleton,
        Table.constant_concat]

/-- The tally of an edge counts the references of that edge, and edges without references have
none. -/
theorem gather_edges (references : List Reference) (ends : Bytes × Bytes) :
    (gather references).edges ends =
      if (referencesBetween references ends).isEmpty then none
      else some (.of (referencesBetween references ends)) := by
  -- the last reference changes the tally of its own ends only, and none if it stays inside
  induction references using List.reverseRecOn with
  | nil => rfl
  | append_singleton references reference ih =>
      rw [gather_concat]
      cases inward : reference.isInternal with
      | true =>
          rw [Gathering.edges_add_of_internal _ inward, ih,
            referencesBetween_concat_of_not fun outward => by simp [inward] at outward]
      | false =>
          rw [Gathering.edges_add_of_outward _ inward]
          by_cases same : ends = (reference.source, reference.owner)
          · subst same
            rw [Table.set_same, ih, referencesBetween_concat_of_mem inward]
            cases between : referencesBetween references (reference.source, reference.owner) with
            | nil => exact congrArg some (EdgeTally.of_concat [] reference).symm
            | cons first others =>
                exact congrArg some (EdgeTally.of_concat (first :: others) reference).symm
          · rw [Table.set_of_ne _ _ same, ih, referencesBetween_concat_of_not fun _ => same]

theorem gather_edges_eq_some_iff {references : List Reference} {ends : Bytes × Bytes}
    {tally : EdgeTally} :
    (gather references).edges ends = some tally ↔
      referencesBetween references ends ≠ [] ∧
        EdgeTally.of (referencesBetween references ends) = tally := by
  rw [gather_edges]
  cases referencesBetween references ends with
  | nil => simp
  | cons first others => simp

/-- What is gathered depends only on which references there are. -/
theorem gather_congr {left right : List Reference}
    (same : ∀ reference, reference ∈ left ↔ reference ∈ right) : gather left = gather right := by
  have inputs : (gather left).inputs = (gather right).inputs := by
    rw [gather_inputs, gather_inputs]
    refine Table.constant_congr ?_ true
    simp only [List.mem_map, same, implies_true]
  have edges : (gather left).edges = (gather right).edges := by
    funext ends
    have between : ∀ reference, reference ∈ referencesBetween left ends ↔
        reference ∈ referencesBetween right ends := by
      simp only [mem_referencesBetween, same, implies_true]
    have empty : (referencesBetween left ends).isEmpty =
        (referencesBetween right ends).isEmpty := by
      rw [Bool.eq_iff_iff, List.isEmpty_iff, List.isEmpty_iff,
        List.eq_nil_iff_forall_not_mem, List.eq_nil_iff_forall_not_mem]
      simp only [between]
    rw [gather_edges, gather_edges, empty, EdgeTally.of_congr between]
  calc
    gather left = ⟨(gather left).inputs, (gather left).edges⟩ := rfl
    _ = ⟨(gather right).inputs, (gather right).edges⟩ := by rw [inputs, edges]

end ClassAudit
