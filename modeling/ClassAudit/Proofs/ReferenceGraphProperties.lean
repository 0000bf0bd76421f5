import ClassAudit.Proofs.GatheringProperties
import Mathlib.Data.List.Basic

/-!
# The graph of references

The graph of a list of references has a node for every class and method that is named and an edge
for every pair of them, each once and in the order in which they first occur. Drafting it reference
by reference and removing duplicates from the draft gives the same graph.
-/

set_option autoImplicit false

namespace ClassAudit

/-! ## Order of first occurrence -/

/-- What is left of a list when every item is kept at its first occurrence only. -/
structure FirstOccurrencesOf {α : Type} [DecidableEq α] (items kept : List α) : Prop where
  distinct : kept.Nodup
  mem_iff : ∀ item, item ∈ kept ↔ item ∈ items
  ordered : kept.Pairwise fun earlier later => items.idxOf earlier < items.idxOf later

section

variable {α : Type} [DecidableEq α] {items kept others : List α}

theorem pairwise_firstOccurrences (items : List α) :
    (firstOccurrences items).Pairwise fun earlier later =>
      items.idxOf earlier < items.idxOf later := by
  induction items using List.reverseRecOn with
  | nil => exact .nil
  | append_singleton items last ih =>
      -- what is known keeps its place in the longer list
      have kept : (firstOccurrences items).Pairwise fun earlier later =>
          (items ++ [last]).idxOf earlier < (items ++ [last]).idxOf later := by
        refine ih.imp_of_mem ?_
        intro earlier later metEarlier metLater before
        rw [List.idxOf_append_of_mem (mem_firstOccurrences.mp metEarlier),
          List.idxOf_append_of_mem (mem_firstOccurrences.mp metLater)]
        exact before
      by_cases known : last ∈ items
      · rw [firstOccurrences_concat_of_mem known]
        exact kept
      · rw [firstOccurrences_concat_of_not_mem known, List.pairwise_append]
        refine ⟨kept, List.pairwise_singleton _ _, ?_⟩
        intro earlier met later single
        have present := mem_firstOccurrences.mp met
        rw [List.mem_singleton.mp single, List.idxOf_append_of_mem present,
          List.idxOf_append_of_notMem known]
        exact Nat.lt_of_lt_of_le (List.idxOf_lt_length_of_mem present) (Nat.le_add_right _ _)

theorem firstOccurrences_spec (items : List α) :
    FirstOccurrencesOf items (firstOccurrences items) :=
  ⟨nodup_firstOccurrences items, fun _ => mem_firstOccurrences, pairwise_firstOccurrences items⟩

theorem FirstOccurrencesOf.unique (first : FirstOccurrencesOf items kept)
    (second : FirstOccurrencesOf items others) : kept = others := by
  have same : kept.Perm others := by
    refine (List.perm_ext_iff_of_nodup first.distinct second.distinct).mpr ?_
    intro item
    rw [first.mem_iff, second.mem_iff]
  refine same.eq_of_pairwise ?_ first.ordered second.ordered
  intro earlier later _ _ before after
  exact absurd before (Nat.lt_asymm after)

theorem firstOccurrences_of_nodup (distinct : items.Nodup) : firstOccurrences items = items := by
  induction items using List.reverseRecOn with
  | nil => rfl
  | append_singleton items last ih =>
      obtain ⟨before, -, apart⟩ := List.nodup_append.mp distinct
      have fresh : last ∉ items := by
        intro known
        exact apart last known last (List.mem_singleton_self last) rfl
      rw [firstOccurrences_concat_of_not_mem fresh, ih before]

theorem firstOccurrences_append_known {before copies : List α}
    (known : ∀ item ∈ copies, item ∈ before) :
    firstOccurrences (before ++ copies) = firstOccurrences before := by
  induction copies using List.reverseRecOn with
  | nil => rw [List.append_nil]
  | append_singleton copies last ih =>
      obtain ⟨earlier, met⟩ := List.forall_mem_append.mp known
      rw [← List.append_assoc, firstOccurrences_concat_of_mem, ih earlier]
      exact List.mem_append_left _ (met last (List.mem_singleton_self last))

/-- Copies of what was met before change nothing, wherever they stand. -/
theorem firstOccurrences_insert {before copies : List α} (after : List α)
    (known : ∀ item ∈ copies, item ∈ before) :
    firstOccurrences (before ++ copies ++ after) = firstOccurrences (before ++ after) := by
  induction after using List.reverseRecOn with
  | nil => rw [List.append_nil, List.append_nil, firstOccurrences_append_known known]
  | append_singleton after last ih =>
      have alike : last ∈ before ++ copies ++ after ↔ last ∈ before ++ after := by
        simp only [List.mem_append]
        grind
      rw [← List.append_assoc, ← List.append_assoc]
      by_cases met : last ∈ before ++ after
      · rw [firstOccurrences_concat_of_mem met, firstOccurrences_concat_of_mem (alike.mpr met), ih]
      · rw [firstOccurrences_concat_of_not_mem met,
          firstOccurrences_concat_of_not_mem (mt alike.mp met), ih]

end

/-! ## Drafts -/

/-- The names that references mention, in the order in which they do. -/
def mentionedNames (references : List Reference) : List Bytes :=
  references.flatMap fun reference => [reference.source, reference.target]

/-- The ends of references, one pair a reference. -/
def referenceEnds (references : List Reference) : List (Bytes × Bytes) :=
  references.map fun reference => (reference.source, reference.target)

/-- What a draft holds once it has met a list of names and a list of edges. -/
def GraphDraft.after (names : List Bytes) (edges : List (Bytes × Bytes)) : GraphDraft :=
  ⟨.constant names true, firstOccurrences names, edges⟩

theorem GraphDraft.meet_after (names : List Bytes) (edges : List (Bytes × Bytes)) (name : Bytes) :
    (GraphDraft.after names edges).meet name = .after (names ++ [name]) edges := by
  unfold GraphDraft.meet GraphDraft.after
  by_cases known : name ∈ names
  · rw [if_pos (Table.has_constant.mpr known), firstOccurrences_concat_of_mem known,
      Table.constant_concat_of_mem known]
  · rw [if_neg (mt Table.has_constant.mp known), firstOccurrences_concat_of_not_mem known,
      Table.constant_concat]

theorem GraphDraft.add_after (names : List Bytes) (edges : List (Bytes × Bytes))
    (reference : Reference) :
    (GraphDraft.after names edges).add reference =
      .after (names ++ [reference.source, reference.target])
        (edges ++ [(reference.source, reference.target)]) := by
  simp only [GraphDraft.add, GraphDraft.meet_after, List.append_assoc, List.cons_append,
    List.nil_append]
  rfl

/-- Whatever order the references come in, the draft knows the names and edges of all of them. -/
theorem draftGraph_eq (references : List Reference) :
    draftGraph references = .after (mentionedNames references) (referenceEnds references) := by
  induction references using List.reverseRecOn with
  | nil => rfl
  | append_singleton references last ih =>
      have added : draftGraph (references ++ [last]) = (draftGraph references).add last := by
        rw [draftGraph, List.foldl_append]
        rfl
      rw [added, ih, GraphDraft.add_after, mentionedNames, mentionedNames, referenceEnds,
        referenceEnds, List.flatMap_append, List.flatMap_singleton, List.map_append,
        List.map_singleton]

/-- Removing duplicates from a graph keeps the first of equal nodes and of equal edges. -/
def KeepsFirst (dedup : ReferenceGraph → ReferenceGraph) : Prop :=
  ∀ graph, FirstOccurrencesOf graph.nodes (dedup graph).nodes ∧
    FirstOccurrencesOf graph.edges (dedup graph).edges

/-- The draft has each node once already, so that only its edges change. -/
theorem KeepsFirst.dedup_draft {dedup : ReferenceGraph → ReferenceGraph} (keeps : KeepsFirst dedup)
    (references : List Reference) :
    dedup (draftGraph references).graph = .ofReferences references := by
  obtain ⟨keptNodes, keptEdges⟩ := keeps (draftGraph references).graph
  have nodes : (dedup (draftGraph references).graph).nodes =
      firstOccurrences (mentionedNames references) := by
    rw [keptNodes.unique (firstOccurrences_spec _), draftGraph_eq]
    exact firstOccurrences_of_nodup (nodup_firstOccurrences _)
  have edges : (dedup (draftGraph references).graph).edges =
      firstOccurrences (referenceEnds references) := by
    rw [keptEdges.unique (firstOccurrences_spec _), draftGraph_eq]
    rfl
  calc
    dedup (draftGraph references).graph =
        ⟨(dedup (draftGraph references).graph).nodes,
          (dedup (draftGraph references).graph).edges⟩ := rfl
    _ = .ofReferences references := by rw [nodes, edges]; rfl

/-! ## Closed graphs -/

/-- A graph records references: its nodes are the names that they mention and its edges are their
ends, each in the order of first occurrence, and both belong together. -/
structure ReferenceGraph.Records (graph : ReferenceGraph) (references : List Reference) : Prop where
  nodes : FirstOccurrencesOf (mentionedNames references) graph.nodes
  edges : FirstOccurrencesOf (referenceEnds references) graph.edges
  closed : ∀ edge ∈ graph.edges, edge.1 ∈ graph.nodes ∧ edge.2 ∈ graph.nodes
  joined : ∀ node ∈ graph.nodes, ∃ edge ∈ graph.edges, node = edge.1 ∨ node = edge.2

theorem mem_mentionedNames {references : List Reference} {name : Bytes} :
    name ∈ mentionedNames references ↔
      ∃ ends ∈ referenceEnds references, name = ends.1 ∨ name = ends.2 := by
  simp only [mentionedNames, referenceEnds, List.mem_flatMap, List.mem_map, List.mem_cons,
    List.not_mem_nil, or_false]
  grind

theorem ReferenceGraph.ofReferences_records (references : List Reference) :
    (ofReferences references).Records references where
  nodes := firstOccurrences_spec _
  edges := firstOccurrences_spec _
  closed := by
    intro edge listed
    have met := mem_firstOccurrences.mp listed
    constructor
    · exact mem_firstOccurrences.mpr (mem_mentionedNames.mpr ⟨edge, met, .inl rfl⟩)
    · exact mem_firstOccurrences.mpr (mem_mentionedNames.mpr ⟨edge, met, .inr rfl⟩)
  joined := by
    intro node listed
    obtain ⟨ends, met, isEnd⟩ := mem_mentionedNames.mp (mem_firstOccurrences.mp listed)
    exact ⟨ends, mem_firstOccurrences.mpr met, isEnd⟩

/-- A list with further copies of its items, each somewhere behind the first one. -/
inductive GainsCopies {α : Type} (items : List α) : List α → Prop
  | none : GainsCopies items items
  | copy {before after : List α} {item : α} (repeated : GainsCopies items (before ++ after))
      (known : item ∈ before) : GainsCopies items (before ++ item :: after)

theorem ReferenceGraph.ofReferences_copy {before : List Reference} {reference : Reference}
    (after : List Reference) (known : reference ∈ before) :
    ofReferences (before ++ reference :: after) = ofReferences (before ++ after) := by
  have names : ∀ name ∈ mentionedNames [reference], name ∈ mentionedNames before := by
    intro name mentioned
    obtain ⟨ends, listed, isEnd⟩ := mem_mentionedNames.mp mentioned
    rw [List.mem_singleton.mp listed] at isEnd
    exact mem_mentionedNames.mpr ⟨_, List.mem_map_of_mem known, isEnd⟩
  have ends : ∀ pair ∈ referenceEnds [reference], pair ∈ referenceEnds before := by
    intro pair listed
    rw [List.mem_singleton.mp listed]
    exact List.mem_map_of_mem known
  have nodes := firstOccurrences_insert (mentionedNames after) names
  have edges := firstOccurrences_insert (referenceEnds after) ends
  rw [← List.singleton_append, ← List.append_assoc]
  simp only [mentionedNames, referenceEnds, ← List.flatMap_append, ← List.map_append] at nodes edges
  rw [ofReferences, ofReferences, nodes, edges]

theorem GainsCopies.ofReferences {references longer : List Reference}
    (repeated : GainsCopies references longer) :
    ReferenceGraph.ofReferences longer = .ofReferences references := by
  induction repeated with
  | none => rfl
  | copy _ known ih => rw [ReferenceGraph.ofReferences_copy _ known, ih]

/-- However duplicates are removed from the draft of references, as long as the first ones stay,
the graph records them. Further copies of a reference leave it as it is. -/
theorem graph_records_references_once (dedup : ReferenceGraph → ReferenceGraph)
    (keeps : KeepsFirst dedup) (references : List Reference) :
    dedup (draftGraph references).graph = .ofReferences references ∧
    (ReferenceGraph.ofReferences references).Records references ∧
    ∀ longer, GainsCopies references longer →
      ReferenceGraph.ofReferences longer = .ofReferences references :=
  ⟨keeps.dedup_draft references, ReferenceGraph.ofReferences_records references,
    fun _ repeated => repeated.ofReferences⟩

/-- References between two classes, one of which has the name of a method of the other. -/
def entangledReferences : List Reference :=
  [⟨"A", "B", "f", "()V", false⟩, ⟨"B.f", "A", "g", "()V", false⟩, ⟨"A", "B", "f", "()I", true⟩]

/-- A graph without its later duplicates. -/
def ReferenceGraph.firstOnly (graph : ReferenceGraph) : ReferenceGraph :=
  ⟨firstOccurrences graph.nodes, firstOccurrences graph.edges⟩

theorem graph_records_references_once_entangled :
    KeepsFirst ReferenceGraph.firstOnly ∧
      (draftGraph entangledReferences).graph =
        ⟨["A", "B.f", "A.g"], [("A", "B.f"), ("B.f", "A.g"), ("A", "B.f")]⟩ ∧
      (draftGraph entangledReferences).graph.firstOnly =
        ⟨["A", "B.f", "A.g"], [("A", "B.f"), ("B.f", "A.g")]⟩ ∧
      (ReferenceGraph.ofReferences entangledReferences).Records entangledReferences := by
  have keeps : KeepsFirst ReferenceGraph.firstOnly :=
    fun graph => ⟨firstOccurrences_spec graph.nodes, firstOccurrences_spec graph.edges⟩
  obtain ⟨recorded, records, -⟩ := graph_records_references_once _ keeps entangledReferences
  exact ⟨keeps, by decide, recorded.trans (by decide), records⟩

end ClassAudit
