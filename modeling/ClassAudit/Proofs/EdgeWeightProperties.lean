import ClassAudit.Proofs.ClassDrawingProperties
import ClassAudit.Proofs.DescriptorProperties
import ClassAudit.Proofs.StatementProperties
import Mathlib.Algebra.BigOperators.Group.Finset.Basic

/-!
# Weights of class edges

The weight of an edge is the number of texts that the names of its methods and their descriptors
run together to, and an edge of more than one is labelled with it. Two methods that run together to
one text are counted once, and no edge is counted higher than its methods are many.
-/

set_option autoImplicit false

namespace ClassAudit

variable {references : List Reference}

/-- The methods, by name and descriptor, that references from one class to another name. -/
def methodsBetween (references : List Reference) (ends : Bytes × Bytes) : Finset (Bytes × Bytes) :=
  ((references.filter fun reference => (reference.source, reference.owner) = ends).map
    fun reference => (reference.name, reference.descriptor)).toFinset

/-- The pairs of different classes with a reference from the first to the second. -/
def joinedClasses (references : List Reference) : Finset (Bytes × Bytes) :=
  {ends ∈ (references.map fun reference => (reference.source, reference.owner)).toFinset |
    ends.1 ≠ ends.2}

/-- The weight under which the edge between two classes is drawn and summed. -/
def gatheredWeight (references : List Reference) (ends : Bytes × Bytes) : Nat :=
  ((gather references).edge ends).weight

/-- The sum of the weights of all edges at a class. -/
def totalWeight (references : List Reference) (name : Bytes) : Nat :=
  ∑ ends ∈ joinedClasses references with ends.1 = name ∨ ends.2 = name,
    gatheredWeight references ends

theorem mem_methodsBetween {ends method : Bytes × Bytes} :
    method ∈ methodsBetween references ends ↔
      ∃ reference ∈ references, (reference.source, reference.owner) = ends ∧
        (reference.name, reference.descriptor) = method := by
  simp only [methodsBetween, List.mem_toFinset, List.mem_map, List.mem_filter, decide_eq_true_eq,
    and_assoc]

theorem mem_joinedClasses {ends : Bytes × Bytes} :
    ends ∈ joinedClasses references ↔
      (∃ reference ∈ references, (reference.source, reference.owner) = ends) ∧
        ends.1 ≠ ends.2 := by
  simp only [joinedClasses, Finset.mem_filter, List.mem_toFinset, List.mem_map]

theorem Reference.isInternal_eq_false_iff {reference : Reference} :
    reference.isInternal = false ↔ reference.source ≠ reference.owner := by
  rw [Reference.isInternal, beq_eq_false_iff_ne]

theorem mem_referencesBetween_of_apart {ends : Bytes × Bytes} {reference : Reference}
    (apart : ends.1 ≠ ends.2) :
    reference ∈ referencesBetween references ends ↔
      reference ∈ references ∧ (reference.source, reference.owner) = ends := by
  rw [mem_referencesBetween, Reference.isInternal_eq_false_iff]
  constructor
  · intro found
    obtain ⟨member, _, joins⟩ := found
    exact ⟨member, joins⟩
  · intro found
    obtain ⟨member, rfl⟩ := found
    exact ⟨member, apart, rfl⟩

/-! ## What is counted -/

theorem length_firstOccurrences {α : Type} [DecidableEq α] (items : List α) :
    (firstOccurrences items).length = items.toFinset.card := by
  rw [← List.toFinset_card_of_nodup (nodup_firstOccurrences items)]
  congr 1
  ext item
  rw [List.mem_toFinset, List.mem_toFinset, mem_firstOccurrences]

theorem gatheredWeight_eq_length (ends : Bytes × Bytes) :
    gatheredWeight references ends =
      (firstOccurrences ((referencesBetween references ends).map Reference.method)).length := by
  rw [gatheredWeight, Gathering.edge, gather_edges]
  cases referencesBetween references ends with
  | nil => rfl
  | cons first others => rfl

/-- An edge weighs as much as its methods have texts of name and descriptor run together. -/
theorem gatheredWeight_eq_card {ends : Bytes × Bytes} (apart : ends.1 ≠ ends.2) :
    gatheredWeight references ends =
      ((methodsBetween references ends).image fun method => method.1 ++ method.2).card := by
  rw [gatheredWeight_eq_length, length_firstOccurrences]
  congr 1
  ext text
  simp only [List.mem_toFinset, List.mem_map, Finset.mem_image, mem_methodsBetween,
    mem_referencesBetween_of_apart apart]
  constructor
  · intro counted
    obtain ⟨reference, ⟨member, joins⟩, rfl⟩ := counted
    exact ⟨_, ⟨reference, member, joins, rfl⟩, rfl⟩
  · intro counted
    obtain ⟨_, ⟨reference, member, joins, rfl⟩, rfl⟩ := counted
    exact ⟨reference, ⟨member, joins⟩, rfl⟩

theorem weight_of_mem_classEdges {edge : ClassEdge} (member : edge ∈ classEdges references) :
    edge.weight = gatheredWeight references edge.ends := by
  rw [gatheredWeight, gather_edge_of_mem member]

/-! ## Sums over the edges at a class -/

theorem referencesBetween_ne_nil_iff {ends : Bytes × Bytes} :
    referencesBetween references ends ≠ [] ↔ ends ∈ joinedClasses references := by
  rw [mem_joinedClasses]
  constructor
  · intro some
    obtain ⟨reference, between⟩ := List.exists_mem_of_ne_nil _ some
    obtain ⟨member, outward, rfl⟩ := mem_referencesBetween.mp between
    exact ⟨⟨reference, member, rfl⟩, Reference.isInternal_eq_false_iff.mp outward⟩
  · intro joined
    obtain ⟨⟨reference, member, joins⟩, apart⟩ := joined
    exact List.ne_nil_of_mem ((mem_referencesBetween_of_apart apart).mpr ⟨member, joins⟩)

theorem mem_ends_classEdges {ends : Bytes × Bytes} :
    ends ∈ (classEdges references).map ClassEdge.ends ↔ ends ∈ joinedClasses references := by
  rw [← referencesBetween_ne_nil_iff, List.mem_map]
  constructor
  · intro found
    obtain ⟨edge, member, rfl⟩ := found
    exact (mem_classEdges.mp member).1
  · intro some
    exact ⟨(EdgeTally.of (referencesBetween references ends)).edge ends,
      mem_classEdges.mpr ⟨some, rfl⟩, rfl⟩

theorem exists_reference_of_mem_classEdges {edge : ClassEdge}
    (member : edge ∈ classEdges references) :
    ∃ reference ∈ references, reference.source = edge.source ∧ reference.owner = edge.target := by
  have joined := mem_ends_classEdges.mp (List.mem_map_of_mem member)
  obtain ⟨⟨reference, met, joins⟩, _⟩ := mem_joinedClasses.mp joined
  exact ⟨reference, met, Prod.mk.inj joins⟩

theorem exists_classEdge_of_mem {reference : Reference} (met : reference ∈ references)
    (outward : reference.source ≠ reference.owner) :
    ∃ edge ∈ classEdges references,
      edge.source = reference.source ∧ edge.target = reference.owner := by
  have joined : (reference.source, reference.owner) ∈ joinedClasses references :=
    mem_joinedClasses.mpr ⟨⟨reference, met, rfl⟩, outward⟩
  obtain ⟨edge, member, ends⟩ := List.mem_map.mp (mem_ends_classEdges.mpr joined)
  exact ⟨edge, member, Prod.mk.inj ends⟩

theorem ends_apart_of_mem_classEdges {edge : ClassEdge} (member : edge ∈ classEdges references) :
    edge.source ≠ edge.target :=
  (mem_joinedClasses.mp (mem_ends_classEdges.mp (List.mem_map_of_mem member))).2

theorem weightAt_of_mem_classEdges {edge : ClassEdge} (member : edge ∈ classEdges references)
    (name : Bytes) :
    edge.weightAt name =
      if edge.ends.1 = name ∨ edge.ends.2 = name then gatheredWeight references edge.ends
      else 0 := by
  have apart := ends_apart_of_mem_classEdges member
  rw [← weight_of_mem_classEdges member, ClassEdge.weightAt]
  change _ = if edge.source = name ∨ edge.target = name then edge.weight else 0
  -- the ends differ, so that a class at one of them is not at the other
  by_cases source : edge.source = name
  · have target : edge.target ≠ name := fun same => apart (source.trans same.symm)
    rw [if_pos source, if_neg target, if_pos (.inl source), Nat.add_zero]
  · rw [if_neg source, Nat.zero_add]
    simp only [source, false_or]

theorem involvement_classEdges (references : List Reference) (name : Bytes) :
    involvement (classEdges references) name = totalWeight references name := by
  have joined : joinedClasses references =
      ((classEdges references).map ClassEdge.ends).toFinset := by
    ext ends
    rw [List.mem_toFinset, mem_ends_classEdges]
  have summed : involvement (classEdges references) name =
      ((classEdges references).map fun edge => edge.weightAt name).sum := by
    rw [involvement, List.sum_eq_foldr, List.foldr_map]
  rw [summed, totalWeight, Finset.sum_filter, joined,
    List.sum_toFinset _ (nodup_ends_classEdges references), List.map_map]
  congr 1
  refine List.map_congr_left ?_
  intro edge member
  exact weightAt_of_mem_classEdges member name

/-! ## When the weight is the number of methods -/

theorem gatheredWeight_le_card {ends : Bytes × Bytes} (apart : ends.1 ≠ ends.2) :
    gatheredWeight references ends ≤ (methodsBetween references ends).card := by
  rw [gatheredWeight_eq_card apart]
  exact Finset.card_image_le

theorem gatheredWeight_eq_card_iff {ends : Bytes × Bytes} (apart : ends.1 ≠ ends.2) :
    gatheredWeight references ends = (methodsBetween references ends).card ↔
      ∀ left ∈ methodsBetween references ends, ∀ right ∈ methodsBetween references ends,
        left.1 ++ left.2 = right.1 ++ right.2 → left = right := by
  rw [gatheredWeight_eq_card apart, Finset.card_image_iff]
  constructor
  · intro injective left leftMember right rightMember same
    exact injective leftMember rightMember same
  · intro told left leftMember right rightMember same
    exact told left leftMember right rightMember same

/-- A name and a descriptor can be told apart when the first opening parenthesis is where the
descriptor starts. -/
def OpensDescriptor (method : Bytes × Bytes) : Prop :=
  (0x28 : UInt8) ∉ method.1 ∧ method.2.head? = some 0x28

theorem OpensDescriptor.takeWhile {method : Bytes × Bytes} (opens : OpensDescriptor method) :
    (method.1 ++ method.2).takeWhile (· != 0x28) = method.1 := by
  obtain ⟨name, descriptor⟩ := method
  obtain ⟨absent, opening⟩ := opens
  cases descriptor with
  | nil => cases opening
  | cons first rest =>
      cases opening
      refine takeWhile_until 0x28 rest ?_ rfl
      intro byte member
      rw [bne_iff_ne]
      rintro rfl
      exact absent member

theorem OpensDescriptor.eq_of_append_eq {left right : Bytes × Bytes}
    (leftOpens : OpensDescriptor left) (rightOpens : OpensDescriptor right)
    (same : left.1 ++ left.2 = right.1 ++ right.2) : left = right := by
  have names : left.1 = right.1 := by
    rw [← leftOpens.takeWhile, same, rightOpens.takeWhile]
  rw [names] at same
  exact Prod.ext names (List.append_cancel_left same)

/-- Edges are drawn, labelled and classes ranked by weights that are at most the number of methods
between two classes. A weight is that number exactly when no two of the methods run together to one
text, and so it is when every name ends before the first parenthesis. -/
theorem edge_weight_counts_methods_iff (references : List Reference) :
    (∀ limit, ∀ edge ∈ drawnEdges references limit,
      edge.weight = gatheredWeight references edge.ends ∧
      ∀ theme greatest,
        classEdgeLine theme greatest edge = (classEdgeStatement theme greatest edge).text ∧
        ∀ label, (Bytes.ofString "label", label) ∈
            (classEdgeStatement theme greatest edge).attributes ↔
          1 < gatheredWeight references edge.ends ∧
            label = weightLabel theme (gatheredWeight references edge.ends)) ∧
    (∀ ranked ∈ rankedClasses references, ranked.2 = totalWeight references ranked.1) ∧
    ∀ source target, source ≠ target →
      gatheredWeight references (source, target) ≤
        (methodsBetween references (source, target)).card ∧
      (gatheredWeight references (source, target) =
          (methodsBetween references (source, target)).card ↔
        ∀ left ∈ methodsBetween references (source, target),
          ∀ right ∈ methodsBetween references (source, target),
            left.1 ++ left.2 = right.1 ++ right.2 → left = right) ∧
      ((∀ method ∈ methodsBetween references (source, target), OpensDescriptor method) →
        gatheredWeight references (source, target) =
          (methodsBetween references (source, target)).card) := by
  refine ⟨?_, ?_, ?_⟩
  · intro limit edge drawn
    have weight : edge.weight = gatheredWeight references edge.ends :=
      weight_of_mem_classEdges ((drawnEdges_sublist references limit).subset drawn)
    refine ⟨weight, ?_⟩
    intro theme greatest
    refine ⟨classEdgeLine_eq_text theme greatest edge, ?_⟩
    intro label
    rw [label_mem_classEdgeStatement, weight]
  · intro ranked member
    rw [← involvement_classEdges]
    exact (mem_rankedClasses.mp member).2.symm
  · intro source target apart
    refine ⟨gatheredWeight_le_card apart, gatheredWeight_eq_card_iff apart, ?_⟩
    intro opens
    rw [gatheredWeight_eq_card_iff apart]
    intro left leftMember right rightMember same
    exact (opens left leftMember).eq_of_append_eq (opens right rightMember) same

theorem edge_weight_of_methods_run_together :
    let references : List Reference :=
      [⟨"A", "B", "f", "()V", false⟩, ⟨"A", "B", "f(", ")V", false⟩]
    (methodsBetween references ("A", "B")).card = 2 ∧
      gatheredWeight references ("A", "B") = 1 ∧
      drawnEdges references 0 = [⟨"A", "B", 1, false⟩] := by
  intro references
  have edges : classEdges references = [⟨"A", "B", 1, false⟩] :=
    classEdges_of_rising (by decide) (by decide)
  have ranked : rankedClasses references = ([("A", 1), ("B", 1)] : List (Bytes × Nat)) :=
    rankedClasses_of_rising edges (by decide) (by decide)
  refine ⟨by decide, by decide, ?_⟩
  rw [drawnEdges, drawnClasses, edges, ranked]
  rfl

end ClassAudit
