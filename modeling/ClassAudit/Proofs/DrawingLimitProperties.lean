import ClassAudit.Proofs.EdgeWeightProperties

/-!
# Limited class graphs

A limit keeps the classes that come first in a ranking by the weights at them, and exactly the
edges between classes that it keeps. What is written is a node for each of these classes and an
edge for each of these edges. A higher limit only adds to the drawing.
-/

set_option autoImplicit false

namespace ClassAudit

variable {references : List Reference}

/-- All classes that references lead from or to, those with the most weight at them first and
level ones by name. -/
structure RanksClasses (references : List Reference) (ranking : List Bytes) : Prop where
  distinct : ranking.Nodup
  complete : ∀ name, name ∈ ranking ↔
    ∃ reference ∈ references, reference.source = name ∨ reference.owner = name
  ordered : ranking.Pairwise fun earlier later =>
    totalWeight references later < totalWeight references earlier ∨
      totalWeight references later = totalWeight references earlier ∧ earlier.le later = true

/-- Whether an edge between two classes belongs to a drawing of some classes. -/
def JoinsDrawn (references : List Reference) (classes : List Bytes) (source target : Bytes) :
    Prop :=
  (∃ reference ∈ references, reference.source = source ∧ reference.owner = target) ∧
    source ≠ target ∧ source ∈ classes ∧ target ∈ classes

/-- The part of a class graph that a limit leaves. -/
structure KeptByLimit (references : List Reference) (limit : Int) (classes : List Bytes)
    (edges : List ClassEdge) : Prop where
  distinct : classes.Nodup
  leading : ∃ ranking, RanksClasses references ranking ∧
    classes = ranking.take (if limit ≤ 0 then ranking.length else min ranking.length limit.toNat)
  joined : ∀ source target, JoinsDrawn references classes source target →
    (edges.map ClassEdge.ends).count (source, target) = 1
  closed : ∀ source target, ¬ JoinsDrawn references classes source target →
    (edges.map ClassEdge.ends).count (source, target) = 0
  ordered : (edges.map ClassEdge.ends).Pairwise fun earlier later => endsLe earlier later = true
  dispatching : ∀ edge ∈ edges, edge.dispatch = true ↔
    ∃ reference ∈ references, reference.source = edge.source ∧ reference.owner = edge.target ∧
      reference.viaInterface = true

/-! ## Ranking -/

theorem mem_names_rankedClasses {name : Bytes} :
    name ∈ (rankedClasses references).map Prod.fst ↔
      name ∈ references.map Reference.source ∨
        ∃ edge ∈ classEdges references, edge.target = name := by
  rw [List.mem_map]
  constructor
  · intro found
    obtain ⟨⟨_, total⟩, member, rfl⟩ := found
    exact (mem_rankedClasses.mp member).1
  · intro known
    exact ⟨(name, _), mem_rankedClasses.mpr ⟨known, rfl⟩, rfl⟩

theorem mem_names_rankedClasses_iff_reference {name : Bytes} :
    name ∈ (rankedClasses references).map Prod.fst ↔
      ∃ reference ∈ references, reference.source = name ∨ reference.owner = name := by
  rw [mem_names_rankedClasses]
  constructor
  · intro known
    rcases known with source | ⟨edge, member, rfl⟩
    · obtain ⟨reference, met, same⟩ := List.mem_map.mp source
      exact ⟨reference, met, .inl same⟩
    · obtain ⟨reference, met, _, target⟩ := exists_reference_of_mem_classEdges member
      exact ⟨reference, met, .inr target⟩
  · intro known
    obtain ⟨reference, met, source | owner⟩ := known
    · exact .inl (List.mem_map.mpr ⟨reference, met, source⟩)
    · by_cases inward : reference.source = reference.owner
      · exact .inl (List.mem_map.mpr ⟨reference, met, inward.trans owner⟩)
      · obtain ⟨edge, member, _, target⟩ := exists_classEdge_of_mem met inward
        exact .inr ⟨edge, member, target.trans owner⟩

theorem rankedClasses_ranks (references : List Reference) :
    RanksClasses references ((rankedClasses references).map Prod.fst) where
  distinct := nodup_names_rankedClasses references
  complete _ := mem_names_rankedClasses_iff_reference
  ordered := by
    have sorted := (rankedClasses_sorted references).pairwise ranksBefore_strictPart
    rw [List.pairwise_map]
    refine sorted.imp_of_mem ?_
    intro earlier later earlierMember laterMember precedes
    -- a class is listed with its involvement, which is the weight at it
    have earlierTotal := (mem_rankedClasses.mp earlierMember).2
    have laterTotal := (mem_rankedClasses.mp laterMember).2
    rw [← involvement_classEdges, ← involvement_classEdges, earlierTotal, laterTotal]
    unfold mayPrecede at precedes
    split at precedes
    · rename_i level
      exact .inr ⟨level.symm, precedes⟩
    · rename_i apart
      exact .inl (lt_of_le_of_ne (of_decide_eq_true precedes) (Ne.symm apart))

theorem drawnClasses_eq_take (references : List Reference) (limit : Int) :
    drawnClasses references limit =
      ((rankedClasses references).map Prod.fst).take
        (if limit ≤ 0 then ((rankedClasses references).map Prod.fst).length
        else min ((rankedClasses references).map Prod.fst).length limit.toNat) := by
  rw [drawnClasses, withinLimit]
  by_cases unlimited : limit ≤ 0
  · rw [if_neg (not_lt.mpr unlimited), if_pos unlimited, List.take_length]
  · rw [if_pos (not_le.mp unlimited), if_neg unlimited, List.map_take]
    refine List.take_eq_take_iff.mpr ?_
    omega

theorem nodup_drawnClasses (references : List Reference) (limit : Int) :
    (drawnClasses references limit).Nodup := by
  rw [drawnClasses_eq_take]
  exact (nodup_names_rankedClasses references).sublist (List.take_sublist _ _)

/-! ## Edges -/

theorem mem_drawnEdges {limit : Int} {edge : ClassEdge} :
    edge ∈ drawnEdges references limit ↔
      edge ∈ classEdges references ∧ edge.source ∈ drawnClasses references limit ∧
        edge.target ∈ drawnClasses references limit := by
  simp only [drawnEdges, List.mem_filter, Bool.and_eq_true, List.contains_iff_mem]

theorem mem_ends_drawnEdges {limit : Int} {source target : Bytes} :
    (source, target) ∈ (drawnEdges references limit).map ClassEdge.ends ↔
      JoinsDrawn references (drawnClasses references limit) source target := by
  rw [List.mem_map]
  constructor
  · intro found
    obtain ⟨edge, drawn, same⟩ := found
    obtain ⟨rfl, rfl⟩ := Prod.mk.inj same
    obtain ⟨member, sourceDrawn, targetDrawn⟩ := mem_drawnEdges.mp drawn
    exact ⟨exists_reference_of_mem_classEdges member, ends_apart_of_mem_classEdges member,
      sourceDrawn, targetDrawn⟩
  · intro joins
    obtain ⟨⟨reference, met, rfl, rfl⟩, apart, sourceDrawn, targetDrawn⟩ := joins
    obtain ⟨edge, member, source, target⟩ := exists_classEdge_of_mem met apart
    refine ⟨edge, mem_drawnEdges.mpr ⟨member, ?_, ?_⟩, Prod.ext source target⟩
    · rw [source]
      exact sourceDrawn
    · rw [target]
      exact targetDrawn

theorem nodup_ends_drawnEdges (references : List Reference) (limit : Int) :
    ((drawnEdges references limit).map ClassEdge.ends).Nodup :=
  (nodup_ends_classEdges references).sublist ((drawnEdges_sublist references limit).map _)

theorem dispatch_of_mem_classEdges {edge : ClassEdge} (member : edge ∈ classEdges references) :
    edge.dispatch = true ↔
      ∃ reference ∈ references, reference.source = edge.source ∧
        reference.owner = edge.target ∧ reference.viaInterface = true := by
  have apart : edge.ends.1 ≠ edge.ends.2 := ends_apart_of_mem_classEdges member
  have marked : edge.dispatch =
      (referencesBetween references edge.ends).any Reference.viaInterface :=
    congrArg ClassEdge.dispatch (mem_classEdges.mp member).2.symm
  rw [marked, List.any_eq_true]
  constructor
  · intro found
    obtain ⟨reference, between, dispatched⟩ := found
    obtain ⟨met, joins⟩ := (mem_referencesBetween_of_apart apart).mp between
    obtain ⟨source, target⟩ := Prod.mk.inj joins
    exact ⟨reference, met, source, target, dispatched⟩
  · intro found
    obtain ⟨reference, met, source, target, dispatched⟩ := found
    have between := (mem_referencesBetween_of_apart apart).mpr ⟨met, Prod.ext source target⟩
    exact ⟨reference, between, dispatched⟩

/-! ## Limits -/

theorem drawn_keptByLimit (references : List Reference) (limit : Int) :
    KeptByLimit references limit (drawnClasses references limit)
      (drawnEdges references limit) where
  distinct := nodup_drawnClasses references limit
  leading := ⟨_, rankedClasses_ranks references, drawnClasses_eq_take references limit⟩
  joined source target joins :=
    List.count_eq_one_of_mem (nodup_ends_drawnEdges references limit)
      (mem_ends_drawnEdges.mpr joins)
  closed source target apart := List.count_eq_zero_of_not_mem (mt mem_ends_drawnEdges.mp apart)
  ordered := by
    have sorted := (pairwise_classEdges references).sublist (drawnEdges_sublist references limit)
    exact List.pairwise_map.mpr sorted
  dispatching edge drawn := dispatch_of_mem_classEdges (mem_drawnEdges.mp drawn).1

theorem drawnClasses_prefix_of_le {limit larger : Int} (positive : 1 ≤ limit)
    (le : limit ≤ larger) :
    drawnClasses references limit <+: drawnClasses references larger := by
  have limited : 0 < limit := positive
  rw [drawnClasses, drawnClasses, withinLimit, withinLimit, if_pos limited,
    if_pos (limited.trans_le le)]
  exact (List.take_prefix_take_left (Int.toNat_le_toNat le)).map _

theorem drawnEdges_subset_of_le {limit larger : Int} (positive : 1 ≤ limit)
    (le : limit ≤ larger) : drawnEdges references limit ⊆ drawnEdges references larger := by
  intro edge drawn
  have kept : drawnClasses references limit ⊆ drawnClasses references larger :=
    (drawnClasses_prefix_of_le positive le).subset
  obtain ⟨member, source, target⟩ := mem_drawnEdges.mp drawn
  exact mem_drawnEdges.mpr ⟨member, kept source, kept target⟩

/-- However a drawing comes about, its text is that of its settings, a node for every drawn class
and an edge for every drawn edge. -/
theorem drawsTo_iff_statements {title text : Bytes} {theme : Theme} {limit : Int} :
    DrawsTo references title theme limit text ↔
      text = classGraphOf (classGraphSettings title theme)
        ((drawnClasses references limit).map (classNode theme (isInput references)))
        ((drawnEdges references limit).map
          (classEdgeStatement theme (greatestWeight (drawnEdges references limit)))) := by
  rw [drawsTo_iff, drawClasses, classGraphText_eq]

/-- A drawing is written as nodes for the leading classes of the ranking and edges between them. An
edge has the colour of dispatch exactly when one of its references goes through an interface. The
classes of a lower limit lead those of a higher one, whose edges include theirs. -/
theorem limited_drawing_keeps_most_involved (references : List Reference) (title : Bytes)
    (theme : Theme) (limit : Int) :
    (∀ text, DrawsTo references title theme limit text ↔
      text = classGraphOf (classGraphSettings title theme)
        ((drawnClasses references limit).map (classNode theme (isInput references)))
        ((drawnEdges references limit).map
          (classEdgeStatement theme (greatestWeight (drawnEdges references limit))))) ∧
    KeptByLimit references limit (drawnClasses references limit) (drawnEdges references limit) ∧
    (∀ edge ∈ drawnEdges references limit, ∀ greatest colour,
      (Bytes.ofString "color", colour) ∈ (classEdgeStatement theme greatest edge).attributes ↔
        (∃ reference ∈ references, reference.source = edge.source ∧
          reference.owner = edge.target ∧ reference.viaInterface = true) ∧
        colour = quoted theme.dispatchEdge) ∧
    ∀ larger, 1 ≤ limit → limit ≤ larger →
      drawnClasses references limit <+: drawnClasses references larger ∧
        drawnEdges references limit ⊆ drawnEdges references larger := by
  have kept := drawn_keptByLimit references limit
  refine ⟨fun text => drawsTo_iff_statements, kept, ?_, ?_⟩
  · intro edge drawn greatest colour
    rw [color_mem_classEdgeStatement, kept.dispatching edge drawn]
  · intro larger positive le
    exact ⟨drawnClasses_prefix_of_le positive le, drawnEdges_subset_of_le positive le⟩

/-- Two classes that call a third, one of them through an interface. -/
def tiedCalls : List Reference := [⟨"B", "C", "f", "()V", false⟩, ⟨"A", "C", "f", "()V", true⟩]

theorem classEdges_tiedCalls :
    classEdges tiedCalls = [⟨"A", "C", 1, true⟩, ⟨"B", "C", 1, false⟩] :=
  classEdges_of_rising (by decide) (by decide)

theorem rankedClasses_tiedCalls :
    rankedClasses tiedCalls = ([("C", 2), ("A", 1), ("B", 1)] : List (Bytes × Nat)) :=
  rankedClasses_of_rising classEdges_tiedCalls (by decide) (by decide)

theorem limited_drawing_of_tied_callers :
    (drawnClasses tiedCalls 1 = ["C"] ∧ drawnClasses tiedCalls 2 = ["C", "A"]) ∧
      (drawnEdges tiedCalls 1 = [] ∧ drawnEdges tiedCalls 2 = [⟨"A", "C", 1, true⟩]) ∧
      (drawnClasses tiedCalls 1 <+: drawnClasses tiedCalls 2 ∧
        drawnEdges tiedCalls 1 ⊆ drawnEdges tiedCalls 2) ∧
      DrawsTo tiedCalls "calls" .monochrome 2
        (classGraphOf (classGraphSettings "calls" .monochrome)
          [.node "n_C" [("label", "<<font point-size=\"10\">C</font>>"),
              ("fillcolor", "\"#ECEFF1\""), ("fontcolor", "\"#9E9E9E\"")],
            .node "n_A" [("label", "<<font point-size=\"10\">A</font>>")]]
          [.edge "n_A" "n_C" [("penwidth", "2.5"), ("color", "\"#0B3D91\"")]]) := by
  have classes : drawnClasses tiedCalls 2 = ["C", "A"] := by
    rw [drawnClasses, rankedClasses_tiedCalls]
    rfl
  have edges : drawnEdges tiedCalls 2 = [⟨"A", "C", 1, true⟩] := by
    rw [drawnEdges, classes, classEdges_tiedCalls]
    rfl
  have fewer : drawnClasses tiedCalls 1 = ["C"] := by
    rw [drawnClasses, rankedClasses_tiedCalls]
    rfl
  have noEdges : drawnEdges tiedCalls 1 = [] := by
    rw [drawnEdges, fewer, classEdges_tiedCalls]
    rfl
  obtain ⟨-, -, -, grows⟩ := limited_drawing_keeps_most_involved tiedCalls "calls" .monochrome 1
  obtain ⟨drawn, -⟩ := limited_drawing_keeps_most_involved tiedCalls "calls" .monochrome 2
  refine ⟨⟨fewer, classes⟩, ⟨noEdges, edges⟩, grows 2 (by decide) (by decide), (drawn _).mpr ?_⟩
  rw [classes, edges]
  decide +kernel

end ClassAudit
