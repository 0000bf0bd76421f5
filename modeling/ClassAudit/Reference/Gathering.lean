import ClassAudit.Reference.Drawing

/-!
# Gathering a class graph

A class graph can be gathered from references one after the other, in tables whose entries
have no order. Whatever is then done for every entry of a table is done in some order, and a
sort that is not stable may leave items that it cannot tell apart in any order. A
`DrawingRun` is one way in which all of this can happen.

The graph of classes and methods is drafted the same way. The draft knows its nodes by a table
and has no duplicates among them, but it has an edge for every reference.
-/

set_option autoImplicit false

namespace ClassAudit

/-! ## Tables -/

/-- A table without order: what is stored under each key. -/
abbrev Table (κ ν : Type) := κ → Option ν

namespace Table

variable {κ ν : Type}

/-- The table without entries. -/
def empty : Table κ ν := fun _ => none

/-- Stores a value under a key in place of what was there. -/
def set [DecidableEq κ] (table : Table κ ν) (key : κ) (value : ν) : Table κ ν := fun other =>
  if other = key then some value else table other

/-- Whether a key is marked. -/
def has (table : Table κ Bool) (key : κ) : Bool := (table key).getD false

/-- Adds to the number under a key. A missing number counts as zero. -/
def raise [DecidableEq κ] (table : Table κ Nat) (key : κ) (amount : Nat) : Table κ Nat :=
  table.set key ((table key).getD 0 + amount)

/-- The entries of a table, each once, in some order. -/
structure Lists (table : Table κ ν) (entries : List (κ × ν)) : Prop where
  distinct : (entries.map Prod.fst).Nodup
  mem_iff : ∀ key value, (key, value) ∈ entries ↔ table key = some value

end Table

/-- What a sort may make of items that `before` compares. -/
structure SortsTo {α : Type} (before : α → α → Bool) (items sorted : List α) : Prop where
  perm : sorted.Perm items
  ordered : sorted.Pairwise fun earlier later => before later earlier = false

/-! ## Gathered references -/

/-- What is known of an edge: its methods, how many they are, and whether an interface call
is among its references. -/
structure EdgeTally where
  methods : Table Bytes Bool
  weight : Nat
  dispatch : Bool

/-- The tally of an edge without references. -/
def EdgeTally.empty : EdgeTally := ⟨.empty, 0, false⟩

/-- The name and descriptor by which references of an edge are told apart. -/
def Reference.method (reference : Reference) : Bytes := reference.name ++ reference.descriptor

/-- Counts a reference unless its method was met before. -/
def EdgeTally.add (tally : EdgeTally) (reference : Reference) : EdgeTally :=
  let known := tally.methods.has reference.method
  { methods := if known then tally.methods else tally.methods.set reference.method true
    weight := if known then tally.weight else tally.weight + 1
    dispatch := tally.dispatch || reference.viaInterface }

/-- The edge that a tally is kept for. -/
def EdgeTally.edge (tally : EdgeTally) (ends : Bytes × Bytes) : ClassEdge :=
  ⟨ends.1, ends.2, tally.weight, tally.dispatch⟩

/-- The classes with references of their own, and the tallies of the edges between
classes. -/
structure Gathering where
  inputs : Table Bytes Bool
  edges : Table (Bytes × Bytes) EdgeTally

/-- Adds a reference. One that stays inside its class makes no edge. -/
def Gathering.add (gathered : Gathering) (reference : Reference) : Gathering :=
  let inputs := gathered.inputs.set reference.source true
  if reference.isInternal then { gathered with inputs }
  else
    let ends := (reference.source, reference.owner)
    { inputs
      edges := gathered.edges.set ends
        (((gathered.edges ends).getD .empty).add reference) }

/-- What a list of references comes to. -/
def gather (references : List Reference) : Gathering :=
  references.foldl Gathering.add ⟨.empty, .empty⟩

/-- The edge between two classes. -/
def Gathering.edge (gathered : Gathering) (ends : Bytes × Bytes) : ClassEdge :=
  ((gathered.edges ends).getD .empty).edge ends

/-! ## Drafted graphs -/

/-- A graph under construction: the names met so far, as a table and as nodes in the order of
their first occurrence, and an edge for every reference. -/
structure GraphDraft where
  seen : Table Bytes Bool
  nodes : List Bytes
  edges : List (Bytes × Bytes)

/-- Makes a name a node unless it was met before. -/
def GraphDraft.meet (draft : GraphDraft) (name : Bytes) : GraphDraft :=
  if draft.seen.has name then draft
  else { draft with seen := draft.seen.set name true, nodes := draft.nodes ++ [name] }

/-- Adds a reference: its class, its method and the edge between them. -/
def GraphDraft.add (draft : GraphDraft) (reference : Reference) : GraphDraft :=
  let met := (draft.meet reference.source).meet reference.target
  { met with edges := met.edges ++ [(reference.source, reference.target)] }

/-- The draft of a list of references. -/
def draftGraph (references : List Reference) : GraphDraft :=
  references.foldl GraphDraft.add ⟨.empty, [], []⟩

/-- The graph that a draft has come to. -/
def GraphDraft.graph (draft : GraphDraft) : ReferenceGraph := ⟨draft.nodes, draft.edges⟩

/-! ## Drawing in any order -/

/-- The edge that an entry of the table of tallies stands for. -/
def entryEdge (entry : (Bytes × Bytes) × EdgeTally) : ClassEdge := entry.2.edge entry.1

/-- Adds the weight of an edge at both of its ends. -/
def Table.raiseEnds (table : Table Bytes Nat) (entry : (Bytes × Bytes) × EdgeTally) :
    Table Bytes Nat :=
  (table.raise entry.1.1 entry.2.weight).raise entry.1.2 entry.2.weight

/-- The involvement of classes: nothing at first for those with references of their own, then
the weight of every edge at both of its ends. -/
def involvementTable (inputs : List Bytes) (edges : List ((Bytes × Bytes) × EdgeTally)) :
    Table Bytes Nat :=
  edges.foldl Table.raiseEnds (inputs.foldl (fun table name => table.set name 0) .empty)

/-- Whether a byte string comes before another one. -/
def Bytes.lt (left right : Bytes) : Bool := !right.le left

/-- Whether a class ranks before another: the more involved first, then by name. -/
def ranksBefore (left right : Bytes × Nat) : Bool :=
  if left.2 = right.2 then left.1.lt right.1 else right.2 < left.2

/-- Whether the ends of an edge come before those of another: by source, then by target. -/
def endsBefore (left right : Bytes × Bytes) : Bool :=
  if left.1 = right.1 then left.2.lt right.2 else left.1.lt right.1

/-- The edges whose ends are both among the classes that a limit leaves. -/
def keptEdges (limit : Int) (ranked : List (Bytes × Nat))
    (edges : List ((Bytes × Bytes) × EdgeTally)) : List ((Bytes × Bytes) × EdgeTally) :=
  let drawn := (withinLimit limit ranked).map Prod.fst
  edges.filter fun entry => drawn.contains entry.1.1 && drawn.contains entry.1.2

/-- One way of drawing what was gathered: the orders in which its tables are gone through,
and what the sorts make of the classes and of the edges that are kept. -/
structure DrawingRun (gathered : Gathering) (limit : Int) where
  inputs : List (Bytes × Bool)
  summed : List ((Bytes × Bytes) × EdgeTally)
  classes : List (Bytes × Nat)
  ranked : List (Bytes × Nat)
  visited : List ((Bytes × Bytes) × EdgeTally)
  drawn : List (Bytes × Bytes)
  inputsListed : gathered.inputs.Lists inputs
  summedListed : gathered.edges.Lists summed
  classesListed : (involvementTable (inputs.map Prod.fst) summed).Lists classes
  rankedSorted : SortsTo ranksBefore classes ranked
  visitedListed : gathered.edges.Lists visited
  drawnSorted : SortsTo endsBefore ((keptEdges limit ranked visited).map Prod.fst) drawn

/-- The text that a run ends in. The greatest weight is taken in the order in which the edges
are gone through. -/
def DrawingRun.text {gathered : Gathering} {limit : Int} (run : DrawingRun gathered limit)
    (title : Bytes) (theme : Theme) : Bytes :=
  classGraphText title theme gathered.inputs.has
    ((withinLimit limit run.ranked).map Prod.fst)
    (greatestWeight ((keptEdges limit run.ranked run.visited).map entryEdge))
    (run.drawn.map gathered.edge)

/-- Whether drawing the classes of references can end in a text. -/
def DrawsTo (references : List Reference) (title : Bytes) (theme : Theme) (limit : Int)
    (text : Bytes) : Prop :=
  ∃ run : DrawingRun (gather references) limit, run.text title theme = text

end ClassAudit
