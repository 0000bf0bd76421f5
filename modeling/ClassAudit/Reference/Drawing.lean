import ClassAudit.Reference.Basic
import ClassAudit.Text.Markup
import ClassAudit.Text.Quoted

/-!
# Drawings of reference graphs

Graphs are written in the Graphviz language. The method graph has one node per class
and per referenced method; the class graph has one node per class, edges weighted by
the methods referenced, and can be limited to the most involved classes.
-/

set_option autoImplicit false

namespace ClassAudit

/-- An identifier for a name: letters, digits and underscores as they are, every other
character by its code in four or more hexadecimal digits. -/
def nodeId (name : Bytes) : Bytes :=
  "n_" ++ (runes name).flatMap fun rune =>
    let code := rune.code
    if (0x61 ≤ code && code ≤ 0x7A) || (0x41 ≤ code && code ≤ 0x5A) ||
        (0x30 ≤ code && code ≤ 0x39) || code == 0x5F then [code.toUInt8]
    else 0x5F :: hexPadded 4 code

/-- The dotted form of an internal class name. -/
def dottedName (name : Bytes) : Bytes := name.replaceByte 0x2F "."

/-- The lines that show a title; none when it is empty. -/
def titleLines (colour title : Bytes) : Bytes :=
  if title = [] then []
  else
    "  labelloc=t;\n  labeljust=l;\n" ++
      "  label=<<font face=\"Helvetica Neue,Helvetica\" point-size=\"8\" color=\"" ++
      colour ++ "\">" ++ escapeMarkup title ++ "</font>>;\n"

/-! ## Method graph -/

/-- The statement of a node of the method graph. Entry points and anonymous functions
have styles of their own. -/
def methodNodeLine (name : Bytes) : Bytes :=
  let style : Bytes :=
    if name = "main" then ", fillcolor=\"#0B3D91\", fontcolor=white, penwidth=0"
    else if (Bytes.ofString "anon#").isPrefixOf name then
      ", style=\"filled,dashed\", color=\"#9E9E9E\", fontcolor=\"#9E9E9E\""
    else []
  "  " ++ nodeId name ++ " [label=" ++ quoted name ++ style ++ "];\n"

/-- The statement of an edge of the method graph. -/
def methodEdgeLine (edge : Bytes × Bytes) : Bytes :=
  "  " ++ nodeId edge.1 ++ " -> " ++ nodeId edge.2 ++ ";\n"

/-- The drawing of a graph of classes and methods. -/
def ReferenceGraph.draw (graph : ReferenceGraph) (title : Bytes) : Bytes :=
  "digraph callgraph \x7b\n  rankdir=LR;\n  splines=true;\n  nodesep=0.4;\n" ++
    "  ranksep=0.6;\n  bgcolor=\"#F5F5F5\";\n" ++
    "  node [shape=rect, style=filled, fillcolor=white, color=\"#1A1A1A\", penwidth=0.5, " ++
    "fontname=\"Helvetica Neue,Helvetica,Arial\", fontsize=9, fontcolor=\"#1A1A1A\", " ++
    "height=0.3, margin=\"0.12,0.06\"];\n" ++
    "  edge [color=\"#9E9E9E\", penwidth=0.5, arrowsize=0.5, arrowhead=vee];\n" ++
    titleLines "#1A1A1A" title ++ "\n" ++ graph.nodes.flatMap methodNodeLine ++ "\n" ++
    graph.edges.flatMap methodEdgeLine ++ "\x7d\n"

/-- The drawing of the classes and methods of a list of references. -/
def drawMethods (references : List Reference) (title : Bytes) : Bytes :=
  (ReferenceGraph.ofReferences references).draw title

/-! ## Class graph -/

/-- Colours of a class graph. -/
structure Theme where
  background : Bytes
  nodeFill : Bytes
  nodeBorder : Bytes
  textColour : Bytes
  directEdge : Bytes
  dispatchEdge : Bytes
  externalFill : Bytes
  externalText : Bytes
  deriving DecidableEq, Repr

/-- A geometric, mostly monochrome theme. -/
def Theme.monochrome : Theme :=
  { background := "#F5F5F5", nodeFill := "white", nodeBorder := "#1A1A1A",
    textColour := "#1A1A1A", directEdge := "#424242", dispatchEdge := "#0B3D91",
    externalFill := "#ECEFF1", externalText := "#9E9E9E" }

/-- A class edge: its ends, its weight, and whether an interface call is among its
references. -/
structure ClassEdge where
  source : Bytes
  target : Bytes
  weight : Nat
  dispatch : Bool
  deriving DecidableEq, Repr

/-- Whether a reference stays inside its class. -/
def Reference.isInternal (reference : Reference) : Bool := reference.source == reference.owner

/-- The edge between two different classes. References are told apart by their name
followed by their descriptor. -/
def classEdge (references : List Reference) (ends : Bytes × Bytes) : ClassEdge :=
  let between := references.filter fun reference =>
    reference.source == ends.1 && reference.owner == ends.2
  { source := ends.1, target := ends.2,
    weight := (firstOccurrences (between.map fun reference =>
      reference.name ++ reference.descriptor)).length,
    dispatch := between.any Reference.viaInterface }

/-- Whether a class edge comes before another: by source, then by target. -/
def ClassEdge.before (left right : ClassEdge) : Bool :=
  if left.source = right.source then left.target.le right.target
  else left.source.le right.source

/-- All class edges, sorted by their ends. -/
def classEdges (references : List Reference) : List ClassEdge :=
  let outward := references.filter fun reference => !reference.isInternal
  ((firstOccurrences (outward.map fun reference => (reference.source, reference.owner))).map
    (classEdge outward)).mergeSort ClassEdge.before

/-- The weight that an edge adds to a class: its own at either end, else none. -/
def ClassEdge.weightAt (edge : ClassEdge) (name : Bytes) : Nat :=
  (if edge.source = name then edge.weight else 0) +
    (if edge.target = name then edge.weight else 0)

/-- The sum of the weights of all edges at a class. -/
def involvement (edges : List ClassEdge) (name : Bytes) : Nat :=
  edges.foldr (fun edge total => edge.weightAt name + total) 0

/-- Whether a class may stand before another in a ranking: the more involved first, then by
name. -/
def mayPrecede (left right : Bytes × Nat) : Bool :=
  if left.2 = right.2 then left.1.le right.1 else right.2 ≤ left.2

/-- All classes with their involvement, the most involved first, then by name. -/
def rankedClasses (references : List Reference) : List (Bytes × Nat) :=
  let edges := classEdges references
  let names := firstOccurrences
    (references.map Reference.source ++ edges.map ClassEdge.target)
  (names.map fun name => (name, involvement edges name)).mergeSort mayPrecede

/-- The part of a ranking that a limit leaves. A limit of zero or less leaves all of it. -/
def withinLimit {α : Type} (limit : Int) (ranked : List α) : List α :=
  if 0 < limit then ranked.take limit.toNat else ranked

/-- The classes that are drawn. -/
def drawnClasses (references : List Reference) (limit : Int) : List Bytes :=
  (withinLimit limit (rankedClasses references)).map Prod.fst

/-- The edges between drawn classes. -/
def drawnEdges (references : List Reference) (limit : Int) : List ClassEdge :=
  let drawn := drawnClasses references limit
  (classEdges references).filter fun edge =>
    drawn.contains edge.source && drawn.contains edge.target

/-- The greatest weight among edges, and at least one. -/
def greatestWeight (edges : List ClassEdge) : Nat :=
  edges.foldl (fun greatest edge => max greatest edge.weight) 1

/-- Whether twenty times the logarithm of `weight + 1` to the base `greatest + 1` lies
above `half / 2`. -/
def logAbove (weight greatest half : Nat) : Bool :=
  Nat.pow (greatest + 1) half < Nat.pow (weight + 1) 40

/-- Whether twenty times the logarithm of `weight + 1` to the base `greatest + 1` is
exactly `half / 2`. -/
def logExactly (weight greatest half : Nat) : Bool :=
  Nat.pow (greatest + 1) half == Nat.pow (weight + 1) 40

/-- The pen width of an edge in tenths: `0.5 + 2 · log (weight + 1) / log (greatest + 1)`
rounded to one place, a tie to the even digit. -/
def penTenths (weight greatest : Nat) : Nat :=
  5 + ((List.range 20).countP fun below =>
    let half := 2 * below + 1
    logAbove weight greatest half ||
      (logExactly weight greatest half && (5 + below) % 2 == 1))

/-- The pen width of an edge with one decimal place. -/
def penWidth (weight greatest : Nat) : Bytes :=
  let tenths := penTenths weight greatest
  decimal (tenths / 10) ++ "." ++ decimal (tenths % 10)

/-- Whether a class has references of its own. -/
def isInput (references : List Reference) (name : Bytes) : Bool :=
  references.any fun reference => reference.source == name

/-- The statement of a class node. Classes that are no inputs are shown in the external
style. -/
def classNodeLine (theme : Theme) (input : Bytes → Bool) (name : Bytes) : Bytes :=
  let style : Bytes :=
    if input name then []
    else
      ", fillcolor=" ++ quoted theme.externalFill ++ ", fontcolor=" ++ quoted theme.externalText
  "  " ++ nodeId name ++ " [label=<<font point-size=\"10\">" ++
    escapeMarkup (dottedName name) ++ "</font>>" ++ style ++ "];\n"

/-- The statement of a class edge. The weight is shown when above one. -/
def classEdgeLine (theme : Theme) (greatest : Nat) (edge : ClassEdge) : Bytes :=
  let colour : Bytes := if edge.dispatch then ", color=" ++ quoted theme.dispatchEdge else []
  let label : Bytes :=
    if 1 < edge.weight then
      ", label=<<font point-size=\"7\" color=\"" ++ theme.externalText ++ "\">" ++
        decimal edge.weight ++ "</font>>"
    else []
  "  " ++ nodeId edge.source ++ " -> " ++ nodeId edge.target ++ " [penwidth=" ++
    penWidth edge.weight greatest ++ colour ++ label ++ "];\n"

/-- The text of a class graph: the title, then a statement for every class and for every
edge. -/
def classGraphText (title : Bytes) (theme : Theme) (input : Bytes → Bool)
    (classes : List Bytes) (greatest : Nat) (edges : List ClassEdge) : Bytes :=
  "digraph classgraph \x7b\n  rankdir=LR;\n  splines=true;\n  nodesep=0.5;\n  ranksep=0.8;\n" ++
    "  bgcolor=" ++ quoted theme.background ++ ";\n" ++
    "  node [shape=rect, style=\"filled,rounded\", fillcolor=" ++ quoted theme.nodeFill ++
    ", color=" ++ quoted theme.nodeBorder ++
    ", penwidth=0.5, fontname=\"Helvetica Neue,Helvetica,Arial\", fontsize=10, fontcolor=" ++
    quoted theme.textColour ++ ", height=0.4, margin=\"0.15,0.08\"];\n" ++
    "  edge [penwidth=0.5, arrowsize=0.5, arrowhead=vee, color=" ++ quoted theme.directEdge ++
    "];\n" ++ titleLines theme.textColour title ++ "\n" ++
    classes.flatMap (classNodeLine theme input) ++ "\n" ++
    edges.flatMap (classEdgeLine theme greatest) ++ "\x7d\n"

/-- The drawing of the classes of a list of references. -/
def drawClasses (references : List Reference) (title : Bytes) (theme : Theme) (limit : Int) :
    Bytes :=
  let edges := drawnEdges references limit
  classGraphText title theme (isInput references) (drawnClasses references limit)
    (greatestWeight edges) edges

end ClassAudit
