import ClassAudit.Proofs.GatheringProperties
import ClassAudit.Proofs.SortingProperties

/-!
# Class graphs do not depend on orders

However the tables of a gathering are gone through, and whatever a sort makes of classes or
edges that it compares equal, the drawing that results is the same. It is determined by the set
of references: their order and repetitions do not show.
-/

set_option autoImplicit false

namespace ClassAudit

variable {references : List Reference}

/-! ## Edges -/

/-- The classes that an edge joins. -/
def ClassEdge.ends (edge : ClassEdge) : Bytes × Bytes := (edge.source, edge.target)

/-- The ends of all edges, in order of first occurrence. -/
def edgeEnds (references : List Reference) : List (Bytes × Bytes) :=
  firstOccurrences ((references.filter fun reference => !reference.isInternal).map
    fun reference => (reference.source, reference.owner))

theorem mem_edgeEnds {ends : Bytes × Bytes} :
    ends ∈ edgeEnds references ↔ referencesBetween references ends ≠ [] := by
  rw [edgeEnds, mem_firstOccurrences, List.mem_map]
  constructor
  · intro met
    obtain ⟨reference, member, joins⟩ := met
    rw [List.mem_filter, Bool.not_eq_true'] at member
    exact List.ne_nil_of_mem (mem_referencesBetween.mpr ⟨member.1, member.2, joins⟩)
  · intro some
    obtain ⟨reference, member⟩ := List.exists_mem_of_ne_nil _ some
    obtain ⟨member, outward, joins⟩ := mem_referencesBetween.mp member
    refine ⟨reference, ?_, joins⟩
    rw [List.mem_filter, outward]
    exact ⟨member, rfl⟩

theorem classEdges_perm (references : List Reference) :
    (classEdges references).Perm ((edgeEnds references).map fun ends =>
      (EdgeTally.of (referencesBetween references ends)).edge ends) :=
  List.mergeSort_perm _ _

/-- The edges of a drawing are those that were gathered. -/
theorem mem_classEdges {edge : ClassEdge} :
    edge ∈ classEdges references ↔
      referencesBetween references edge.ends ≠ [] ∧
        (EdgeTally.of (referencesBetween references edge.ends)).edge edge.ends = edge := by
  rw [(classEdges_perm references).mem_iff, List.mem_map]
  constructor
  · intro found
    obtain ⟨ends, met, rfl⟩ := found
    exact ⟨mem_edgeEnds.mp met, rfl⟩
  · intro gathered
    exact ⟨edge.ends, mem_edgeEnds.mpr gathered.1, gathered.2⟩

theorem source_mem_of_mem_classEdges {edge : ClassEdge} (member : edge ∈ classEdges references) :
    edge.source ∈ references.map Reference.source := by
  obtain ⟨reference, found⟩ := List.exists_mem_of_ne_nil _ (mem_classEdges.mp member).1
  obtain ⟨found, _, joins⟩ := mem_referencesBetween.mp found
  exact List.mem_map.mpr ⟨reference, found, congrArg Prod.fst joins⟩

theorem pairwise_classEdges (references : List Reference) :
    (classEdges references).Pairwise fun earlier later =>
      endsLe earlier.ends later.ends = true :=
  List.pairwise_mergeSort
    (fun first second third => endsLe_totalOrder.trans first.ends second.ends third.ends)
    (fun first second => endsLe_totalOrder.total first.ends second.ends) _

theorem classEdges_of_rising {edges : List ClassEdge}
    (same : edges.Perm ((edgeEnds references).map fun ends =>
      (EdgeTally.of (referencesBetween references ends)).edge ends))
    (rising : edges.Pairwise fun earlier later => endsLe later.ends earlier.ends = false) :
    classEdges references = edges :=
  mergeSort_eq_of_rising
    (fun first second third => endsLe_totalOrder.trans first.ends second.ends third.ends)
    (fun first second => endsLe_totalOrder.total first.ends second.ends) same.symm rising

theorem classEdges_of_call {reference : Reference}
    (outward : reference.source ≠ reference.owner) :
    classEdges [reference] =
      [⟨reference.source, reference.owner, 1, reference.viaInterface⟩] := by
  simp [classEdges, Reference.isInternal, outward, firstOccurrences, classEdge]

theorem nodup_ends_classEdges (references : List Reference) :
    ((classEdges references).map ClassEdge.ends).Nodup := by
  refine (((classEdges_perm references).map ClassEdge.ends).nodup_iff).mpr ?_
  exact nodup_map_label (fun _ => rfl) (nodup_firstOccurrences _)

theorem gather_edge_of_mem {edge : ClassEdge} (member : edge ∈ classEdges references) :
    (gather references).edge edge.ends = edge := by
  obtain ⟨some, same⟩ := mem_classEdges.mp member
  rw [Gathering.edge, gather_edges_eq_some_iff.mpr ⟨some, rfl⟩]
  exact same

/-- The tallies of all edges, in the order of the edges. -/
def tallies (references : List Reference) : List ((Bytes × Bytes) × EdgeTally) :=
  (classEdges references).map fun edge =>
    (edge.ends, EdgeTally.of (referencesBetween references edge.ends))

theorem entryEdge_tallies (references : List Reference) :
    (tallies references).map entryEdge = classEdges references := by
  rw [tallies, List.map_map]
  refine (List.map_congr_left ?_).trans (List.map_id _)
  intro edge member
  exact (mem_classEdges.mp member).2

theorem tallies_listed (references : List Reference) :
    (gather references).edges.Lists (tallies references) where
  distinct := by
    rw [tallies, List.map_map]
    exact nodup_ends_classEdges references
  mem_iff ends tally := by
    rw [gather_edges_eq_some_iff, tallies, List.mem_map]
    constructor
    · intro found
      obtain ⟨edge, member, same⟩ := found
      obtain ⟨rfl, rfl⟩ := Prod.mk.inj same
      exact ⟨(mem_classEdges.mp member).1, rfl⟩
    · intro gathered
      obtain ⟨some, rfl⟩ := gathered
      exact ⟨(EdgeTally.of (referencesBetween references ends)).edge ends,
        mem_classEdges.mpr ⟨some, rfl⟩, rfl⟩

/-- Going through the gathered edges in any order meets the edges of the drawing. -/
theorem entryEdge_perm {entries : List ((Bytes × Bytes) × EdgeTally)}
    (listed : (gather references).edges.Lists entries) :
    (entries.map entryEdge).Perm (classEdges references) := by
  rw [← entryEdge_tallies]
  exact (listed.perm (tallies_listed references)).map entryEdge

/-! ## Involvement -/

theorem involvement_perm {edges others : List ClassEdge} (same : edges.Perm others)
    (name : Bytes) : involvement edges name = involvement others name := by
  unfold involvement
  refine same.foldr_eq' ?_ 0
  intro first _ second _ total
  exact Nat.add_left_comm _ _ total

theorem Table.getD_raise (table : Table Bytes Nat) (key name : Bytes) (amount : Nat) :
    (table.raise key amount name).getD 0 =
      (table name).getD 0 + if key = name then amount else 0 := by
  by_cases same : key = name
  · subst same
    rw [raise, set_same, if_pos rfl]
    rfl
  · rw [raise, set_of_ne _ _ (Ne.symm same), if_neg same]
    rfl

theorem Table.isSome_raise (table : Table Bytes Nat) (key name : Bytes) (amount : Nat) :
    (table.raise key amount name).isSome = true ↔ (table name).isSome = true ∨ key = name := by
  by_cases same : key = name
  · subst same
    rw [raise, set_same]
    exact ⟨fun _ => .inr rfl, fun _ => rfl⟩
  · rw [raise, set_of_ne _ _ (Ne.symm same)]
    exact ⟨.inl, fun known => known.resolve_right same⟩

theorem getD_foldl_raiseEnds (entries : List ((Bytes × Bytes) × EdgeTally))
    (table : Table Bytes Nat) (name : Bytes) :
    (entries.foldl Table.raiseEnds table name).getD 0 =
      (table name).getD 0 + involvement (entries.map entryEdge) name := by
  induction entries generalizing table with
  | nil => rfl
  | cons entry entries ih =>
      have step : (table.raiseEnds entry name).getD 0 =
          (table name).getD 0 + (entryEdge entry).weightAt name := by
        rw [Table.raiseEnds, Table.getD_raise, Table.getD_raise, Nat.add_assoc]
        rfl
      rw [List.foldl_cons, ih, step, Nat.add_assoc]
      rfl

theorem isSome_foldl_raiseEnds (entries : List ((Bytes × Bytes) × EdgeTally))
    (table : Table Bytes Nat) (name : Bytes) :
    (entries.foldl Table.raiseEnds table name).isSome = true ↔
      (table name).isSome = true ∨
        ∃ edge ∈ entries.map entryEdge, edge.source = name ∨ edge.target = name := by
  induction entries generalizing table with
  | nil => simp
  | cons entry entries ih =>
      have step : (table.raiseEnds entry name).isSome = true ↔
          (table name).isSome = true ∨
            (entryEdge entry).source = name ∨ (entryEdge entry).target = name := by
        rw [Table.raiseEnds, Table.isSome_raise, Table.isSome_raise, or_assoc]
        rfl
      rw [List.foldl_cons, ih, step, or_assoc, List.map_cons, List.exists_mem_cons_iff]

/-- The table of involvements holds the classes with references of their own and the ends of
all edges, each with the sum of the weights at it. -/
theorem involvementTable_eq_some_iff {inputs : List Bytes}
    {entries : List ((Bytes × Bytes) × EdgeTally)} {name : Bytes} {total : Nat} :
    involvementTable inputs entries name = some total ↔
      (name ∈ inputs ∨
        ∃ edge ∈ entries.map entryEdge, edge.source = name ∨ edge.target = name) ∧
      involvement (entries.map entryEdge) name = total := by
  have met : (Table.constant inputs 0 name).isSome = true ↔ name ∈ inputs := by
    rw [Option.isSome_iff_exists]
    simp only [Table.constant_eq_some_iff, exists_and_left, exists_eq', and_true]
  have sum := getD_foldl_raiseEnds entries (Table.constant inputs 0) name
  have known := isSome_foldl_raiseEnds entries (Table.constant inputs 0) name
  rw [Table.getD_constant, Nat.zero_add] at sum
  rw [met] at known
  rw [involvementTable, Table.foldl_set, ← known, ← sum]
  cases entries.foldl Table.raiseEnds (Table.constant inputs 0) name <;> simp

/-! ## Ranking -/

/-- All classes, in order of first occurrence. -/
def classNames (references : List Reference) : List Bytes :=
  firstOccurrences
    (references.map Reference.source ++ (classEdges references).map ClassEdge.target)

theorem rankedClasses_sorted (references : List Reference) :
    SortsTo ranksBefore
      ((classNames references).map fun name => (name, involvement (classEdges references) name))
      (rankedClasses references) :=
  sortsTo_mergeSort mayPrecede_totalOrder ranksBefore_strictPart

theorem rankedClasses_of_rising {edges : List ClassEdge} {ranked : List (Bytes × Nat)}
    (joined : classEdges references = edges)
    (same : ranked.Perm ((firstOccurrences
      (references.map Reference.source ++ edges.map ClassEdge.target)).map
        fun name => (name, involvement edges name)))
    (rising : ranked.Pairwise fun earlier later => mayPrecede later earlier = false) :
    rankedClasses references = ranked := by
  subst joined
  exact mergeSort_eq_of_rising mayPrecede_totalOrder.trans mayPrecede_totalOrder.total same.symm
    rising

/-- Of two classes with a single call between them, both are as involved. -/
theorem rankedClasses_of_call {reference : Reference}
    (rising : reference.owner.le reference.source = false) :
    rankedClasses [reference] = [(reference.source, 1), (reference.owner, 1)] := by
  have outward : reference.source ≠ reference.owner := by
    intro same
    have level := Bytes.le_total reference.owner reference.owner
    rw [same] at rising
    rw [rising] at level
    cases level
  refine rankedClasses_of_rising (classEdges_of_call outward) ?_ ?_
  · simp [firstOccurrences, involvement, ClassEdge.weightAt, outward, outward.symm]
  · simp [mayPrecede, rising]

theorem mem_rankedClasses {name : Bytes} {total : Nat} :
    (name, total) ∈ rankedClasses references ↔
      (name ∈ references.map Reference.source ∨
        ∃ edge ∈ classEdges references, edge.target = name) ∧
      involvement (classEdges references) name = total := by
  rw [(rankedClasses_sorted references).perm.mem_iff, List.mem_map]
  simp only [classNames, Prod.mk.injEq, mem_firstOccurrences, List.mem_append,
    List.mem_map (f := ClassEdge.target)]
  constructor
  · intro found
    obtain ⟨_, known, rfl, sum⟩ := found
    exact ⟨known, sum⟩
  · intro found
    exact ⟨name, found.1, rfl, found.2⟩

theorem nodup_names_rankedClasses (references : List Reference) :
    ((rankedClasses references).map Prod.fst).Nodup := by
  refine (((rankedClasses_sorted references).perm.map Prod.fst).nodup_iff).mpr ?_
  exact nodup_map_label (fun _ => rfl) (nodup_firstOccurrences _)

/-- The ranking holds the involvements, whatever order they were summed in. -/
theorem rankedClasses_listed {inputs : List (Bytes × Bool)}
    {entries : List ((Bytes × Bytes) × EdgeTally)}
    (inputsListed : (gather references).inputs.Lists inputs)
    (listed : (gather references).edges.Lists entries) :
    (involvementTable (inputs.map Prod.fst) entries).Lists (rankedClasses references) where
  distinct := nodup_names_rankedClasses references
  mem_iff name total := by
    have same := entryEdge_perm listed
    have input : name ∈ inputs.map Prod.fst ↔ name ∈ references.map Reference.source := by
      rw [List.mem_map]
      simp only [Prod.exists, inputsListed.mem_iff, gather_inputs, Table.constant_eq_some_iff]
      constructor
      · intro found
        obtain ⟨_, _, found, rfl⟩ := found
        exact found.1
      · intro found
        exact ⟨name, true, ⟨found, rfl⟩, rfl⟩
    rw [mem_rankedClasses, involvementTable_eq_some_iff, involvement_perm same, input]
    simp only [same.mem_iff]
    refine and_congr_left' ?_
    -- the source of an edge has references of its own, so that only targets add classes
    constructor
    · intro known
      rcases known with source | ⟨edge, member, target⟩
      · exact .inl source
      · exact .inr ⟨edge, member, .inr target⟩
    · intro known
      rcases known with source | ⟨edge, member, rfl | target⟩
      · exact .inl source
      · exact .inl (source_mem_of_mem_classEdges member)
      · exact .inr ⟨edge, member, target⟩

/-! ## Runs -/

theorem greatestWeight_perm {edges others : List ClassEdge} (same : edges.Perm others) :
    greatestWeight edges = greatestWeight others := by
  unfold greatestWeight
  refine same.foldl_eq' ?_ 1
  intro first _ second _ greatest
  exact Nat.max_right_comm greatest _ _

theorem gather_inputs_has (references : List Reference) :
    (gather references).inputs.has = isInput references := by
  funext name
  rw [Bool.eq_iff_iff, gather_inputs, Table.has_constant, isInput, List.any_eq_true, List.mem_map]
  simp only [beq_iff_eq]

theorem keptEdges_perm (limit : Int) {entries : List ((Bytes × Bytes) × EdgeTally)}
    (listed : (gather references).edges.Lists entries) :
    ((keptEdges limit (rankedClasses references) entries).map entryEdge).Perm
      (drawnEdges references limit) := by
  have kept : (keptEdges limit (rankedClasses references) entries).map entryEdge =
      (entries.map entryEdge).filter fun edge =>
        (drawnClasses references limit).contains edge.source &&
          (drawnClasses references limit).contains edge.target := by
    rw [List.filter_map]
    rfl
  rw [kept]
  exact (entryEdge_perm listed).filter _

theorem keptEnds_perm (limit : Int) {entries : List ((Bytes × Bytes) × EdgeTally)}
    (listed : (gather references).edges.Lists entries) :
    ((keptEdges limit (rankedClasses references) entries).map Prod.fst).Perm
      ((drawnEdges references limit).map ClassEdge.ends) := by
  have ends := (keptEdges_perm limit listed).map ClassEdge.ends
  rw [List.map_map] at ends
  exact ends

theorem drawnEdges_sublist (references : List Reference) (limit : Int) :
    (drawnEdges references limit).Sublist (classEdges references) := List.filter_sublist

theorem drawnEdges_sorted (references : List Reference) (limit : Int) :
    SortsTo endsBefore ((drawnEdges references limit).map ClassEdge.ends)
      ((drawnEdges references limit).map ClassEdge.ends) where
  perm := .refl _
  ordered := by
    have ordered := (pairwise_classEdges references).sublist (drawnEdges_sublist references limit)
    exact List.pairwise_map.mpr (ordered.imp endsBefore_strictPart.eq_false_iff.mpr)

namespace DrawingRun

variable {limit : Int} (run : DrawingRun (gather references) limit)

theorem ranked_eq : run.ranked = rankedClasses references := by
  have listed := rankedClasses_listed run.inputsListed run.summedListed
  have same := (run.classesListed.perm listed).trans (rankedClasses_sorted references).perm
  exact run.rankedSorted.unique (rankedClasses_sorted references) mayPrecede_totalOrder
    ranksBefore_strictPart same

theorem drawn_eq : run.drawn = (drawnEdges references limit).map ClassEdge.ends := by
  have same := keptEnds_perm limit run.visitedListed
  rw [← run.ranked_eq] at same
  exact run.drawnSorted.unique (drawnEdges_sorted references limit) endsLe_totalOrder
    endsBefore_strictPart same

/-- Every run ends in the same text. -/
theorem text_eq (title : Bytes) (theme : Theme) :
    run.text title theme = drawClasses references title theme limit := by
  have edges : run.drawn.map (gather references).edge = drawnEdges references limit := by
    rw [run.drawn_eq, List.map_map]
    refine (List.map_congr_left ?_).trans (List.map_id _)
    intro edge member
    exact gather_edge_of_mem ((drawnEdges_sublist references limit).subset member)
  rw [text, gather_inputs_has, edges, run.ranked_eq,
    greatestWeight_perm (keptEdges_perm limit run.visitedListed)]
  rfl

end DrawingRun

theorem inputs_listed (references : List Reference) :
    (gather references).inputs.Lists
      ((firstOccurrences (references.map Reference.source)).map fun name => (name, true)) where
  distinct := nodup_map_label (fun _ => rfl) (nodup_firstOccurrences _)
  mem_iff name mark := by
    rw [gather_inputs, Table.constant_eq_some_iff, List.mem_map]
    simp only [mem_firstOccurrences, Prod.mk.injEq]
    constructor
    · intro found
      obtain ⟨_, known, rfl, rfl⟩ := found
      exact ⟨known, rfl⟩
    · intro found
      exact ⟨name, found.1, rfl, found.2⟩

/-- The run that goes through everything in the order of the drawing. -/
def orderedRun (references : List Reference) (limit : Int) :
    DrawingRun (gather references) limit where
  inputs := (firstOccurrences (references.map Reference.source)).map fun name => (name, true)
  summed := tallies references
  classes := rankedClasses references
  ranked := rankedClasses references
  visited := tallies references
  drawn := (drawnEdges references limit).map ClassEdge.ends
  inputsListed := inputs_listed references
  summedListed := tallies_listed references
  classesListed := rankedClasses_listed (inputs_listed references) (tallies_listed references)
  rankedSorted := ⟨.refl _, (rankedClasses_sorted references).ordered⟩
  visitedListed := tallies_listed references
  drawnSorted := ⟨(keptEnds_perm limit (tallies_listed references)).symm,
    (drawnEdges_sorted references limit).ordered⟩

/-- Drawing can end in one text only, and it always can end in it. -/
theorem drawsTo_iff {title : Bytes} {theme : Theme} {limit : Int} {text : Bytes} :
    DrawsTo references title theme limit text ↔
      text = drawClasses references title theme limit := by
  constructor
  · intro drawn
    obtain ⟨run, rfl⟩ := drawn
    exact run.text_eq title theme
  · intro same
    exact ⟨orderedRun references limit, (DrawingRun.text_eq _ title theme).trans same.symm⟩

/-- Lists with the same references have the same drawing, and no order in which tables are gone
through or level items are sorted leads to another one. -/
theorem class_drawing_determined_by_reference_set {left right : List Reference}
    (same : ∀ reference, reference ∈ left ↔ reference ∈ right)
    (title : Bytes) (theme : Theme) (limit : Int) :
    drawClasses left title theme limit = drawClasses right title theme limit ∧
      ∀ text,
        (DrawsTo left title theme limit text ↔ text = drawClasses left title theme limit) ∧
        (DrawsTo right title theme limit text ↔ text = drawClasses left title theme limit) := by
  have gathered : gather left = gather right := gather_congr same
  have drawn : drawClasses left title theme limit = drawClasses right title theme limit := by
    rw [← drawsTo_iff, DrawsTo, ← gathered]
    exact drawsTo_iff.mpr rfl
  refine ⟨drawn, ?_⟩
  intro text
  rw [drawsTo_iff, drawsTo_iff, drawn]
  exact ⟨Iff.rfl, Iff.rfl⟩

/-- Two classes of equal involvement compete for the second place. -/
theorem class_drawing_of_tied_callers :
    let call : Reference := ⟨"A", "C", "f", "()V", false⟩
    let dispatch : Reference := ⟨"B", "C", "f", "()V", true⟩
    (∀ reference, reference ∈ [call, dispatch, call] ↔ reference ∈ [dispatch, call]) ∧
      drawClasses [call, dispatch, call] "calls" .monochrome 2 =
        drawClasses [dispatch, call] "calls" .monochrome 2 ∧
      ∀ text,
        (DrawsTo [call, dispatch, call] "calls" .monochrome 2 text ↔
          text = drawClasses [call, dispatch, call] "calls" .monochrome 2) ∧
        (DrawsTo [dispatch, call] "calls" .monochrome 2 text ↔
          text = drawClasses [call, dispatch, call] "calls" .monochrome 2) := by
  intro call dispatch
  have same : ∀ reference,
      reference ∈ [call, dispatch, call] ↔ reference ∈ [dispatch, call] := by
    intro reference
    simp only [List.mem_cons, List.not_mem_nil, or_false]
    rw [or_left_comm, or_self]
  exact ⟨same, class_drawing_determined_by_reference_set same "calls" .monochrome 2⟩

end ClassAudit
