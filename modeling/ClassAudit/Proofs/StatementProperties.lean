import ClassAudit.Proofs.WordProperties
import ClassAudit.Reference.Drawing

/-!
# Statements of class graphs

The text of a class graph is a list of statements: settings, a node for every class and an edge
for every class edge, each with attributes of its own. A class edge has a colour attribute exactly
when it dispatches, and a label exactly when its weight is above one.
-/

set_option autoImplicit false

namespace ClassAudit

/-! ## Statements -/

/-- A statement of a graph. Defaults hold for all nodes or all edges. -/
inductive Statement where
  | setting (name value : Bytes)
  | defaults (kind : Bytes) (attributes : List (Bytes × Bytes))
  | node (identifier : Bytes) (attributes : List (Bytes × Bytes))
  | edge (source target : Bytes) (attributes : List (Bytes × Bytes))
  deriving DecidableEq, Repr

def attributesText : List (Bytes × Bytes) → Bytes
  | [] => []
  | [last] => last.1 ++ "=" ++ last.2
  | first :: rest => first.1 ++ "=" ++ first.2 ++ ", " ++ attributesText rest

namespace Statement

def text : Statement → Bytes
  | .setting name value => "  " ++ name ++ "=" ++ value ++ ";\n"
  | .defaults kind attributes => "  " ++ kind ++ " [" ++ attributesText attributes ++ "];\n"
  | .node identifier attributes =>
      "  " ++ identifier ++ " [" ++ attributesText attributes ++ "];\n"
  | .edge source target attributes =>
      "  " ++ source ++ " -> " ++ target ++ " [" ++ attributesText attributes ++ "];\n"

def attributes : Statement → List (Bytes × Bytes)
  | .setting _ _ => []
  | .defaults _ attributes => attributes
  | .node _ attributes => attributes
  | .edge _ _ attributes => attributes

end Statement

def classGraphOf (settings nodes edges : List Statement) : Bytes :=
  "digraph classgraph \x7b\n" ++ settings.flatMap Statement.text ++ "\n" ++
    nodes.flatMap Statement.text ++ "\n" ++ edges.flatMap Statement.text ++ "\x7d\n"

/-! ## Class graphs -/

def titleSettings (colour title : Bytes) : List Statement :=
  if title = [] then []
  else
    [.setting "labelloc" "t", .setting "labeljust" "l",
      .setting "label" ("<<font face=\"Helvetica Neue,Helvetica\" point-size=\"8\" color=\"" ++
        colour ++ "\">" ++ escapeMarkup title ++ "</font>>")]

/-- What stands before the nodes of a class graph. -/
def classGraphSettings (title : Bytes) (theme : Theme) : List Statement :=
  [.setting "rankdir" "LR", .setting "splines" "true", .setting "nodesep" "0.5",
    .setting "ranksep" "0.8", .setting "bgcolor" (quoted theme.background),
    .defaults "node" [("shape", "rect"), ("style", "\"filled,rounded\""),
      ("fillcolor", quoted theme.nodeFill), ("color", quoted theme.nodeBorder),
      ("penwidth", "0.5"), ("fontname", "\"Helvetica Neue,Helvetica,Arial\""),
      ("fontsize", "10"), ("fontcolor", quoted theme.textColour), ("height", "0.4"),
      ("margin", "\"0.15,0.08\"")],
    .defaults "edge" [("penwidth", "0.5"), ("arrowsize", "0.5"), ("arrowhead", "vee"),
      ("color", quoted theme.directEdge)]] ++ titleSettings theme.textColour title

/-- The node of a class: its dotted name as the label, and two colours where it is no input. -/
def classNode (theme : Theme) (input : Bytes → Bool) (name : Bytes) : Statement :=
  .node (nodeId name)
    (("label", "<<font point-size=\"10\">" ++ escapeMarkup (dottedName name) ++ "</font>>") ::
      if input name then []
      else [("fillcolor", quoted theme.externalFill), ("fontcolor", quoted theme.externalText)])

def weightLabel (theme : Theme) (weight : Nat) : Bytes :=
  "<<font point-size=\"7\" color=\"" ++ theme.externalText ++ "\">" ++ decimal weight ++
    "</font>>"

/-- The colour of an edge that dispatches. Other edges have the default. -/
def dispatchColour (theme : Theme) (dispatch : Bool) : List (Bytes × Bytes) :=
  if dispatch then [("color", quoted theme.dispatchEdge)] else []

/-- The label of an edge that stands for several methods. -/
def severalLabel (theme : Theme) (weight : Nat) : List (Bytes × Bytes) :=
  if 1 < weight then [("label", weightLabel theme weight)] else []

def classEdgeStatement (theme : Theme) (greatest : Nat) (edge : ClassEdge) : Statement :=
  .edge (nodeId edge.source) (nodeId edge.target)
    (("penwidth", penWidth edge.weight greatest) ::
      (dispatchColour theme edge.dispatch ++ severalLabel theme edge.weight))

theorem titleLines_eq_flatMap (colour title : Bytes) :
    titleLines colour title = (titleSettings colour title).flatMap Statement.text := by
  by_cases untitled : title = []
  · rw [titleLines, titleSettings, if_pos untitled, if_pos untitled]
    rfl
  · rw [titleLines, titleSettings, if_neg untitled, if_neg untitled]
    simp only [List.flatMap_cons, List.flatMap_nil, Statement.text, List.append_assoc,
      List.append_nil, Bytes.ofString_append_ofString, ← Bytes.ofString_append,
      String.reduceAppend]

theorem classNodeLine_eq_text (theme : Theme) (input : Bytes → Bool) (name : Bytes) :
    classNodeLine theme input name = (classNode theme input name).text := by
  cases solid : input name with
  | true | false =>
      simp only [classNodeLine, classNode, solid, if_true, Bool.false_eq_true, if_false,
        Statement.text, attributesText, List.append_assoc, List.nil_append,
        Bytes.ofString_append_ofString, ← Bytes.ofString_append, String.reduceAppend]

theorem classEdgeLine_eq_text (theme : Theme) (greatest : Nat) (edge : ClassEdge) :
    classEdgeLine theme greatest edge = (classEdgeStatement theme greatest edge).text := by
  obtain ⟨source, target, weight, dispatch⟩ := edge
  by_cases several : 1 < weight
  · cases dispatch with
    | true | false =>
        simp only [classEdgeLine, classEdgeStatement, dispatchColour, severalLabel, weightLabel,
          if_pos several, if_true, Bool.false_eq_true, if_false, Statement.text, List.cons_append,
          List.nil_append, attributesText, List.append_assoc, Bytes.ofString_append_ofString,
          ← Bytes.ofString_append, String.reduceAppend]
  · cases dispatch with
    | true | false =>
        simp only [classEdgeLine, classEdgeStatement, dispatchColour, severalLabel,
          if_neg several, if_true, Bool.false_eq_true, if_false, Statement.text, List.cons_append,
          List.nil_append, attributesText, List.append_assoc, Bytes.ofString_append_ofString,
          ← Bytes.ofString_append, String.reduceAppend]

/-- A class graph is written as its settings, a node for every class and an edge for every edge. -/
theorem classGraphText_eq (title : Bytes) (theme : Theme) (input : Bytes → Bool)
    (classes : List Bytes) (greatest : Nat) (edges : List ClassEdge) :
    classGraphText title theme input classes greatest edges =
      classGraphOf (classGraphSettings title theme) (classes.map (classNode theme input))
        (edges.map (classEdgeStatement theme greatest)) := by
  have node : classNodeLine theme input = fun name => (classNode theme input name).text :=
    funext (classNodeLine_eq_text theme input)
  have line : classEdgeLine theme greatest =
      fun edge => (classEdgeStatement theme greatest edge).text :=
    funext (classEdgeLine_eq_text theme greatest)
  unfold classGraphText classGraphOf
  rw [node, line, List.flatMap_map, List.flatMap_map, titleLines_eq_flatMap]
  -- only what stands before the nodes is left to compare
  rw [List.append_left_inj, List.append_left_inj, List.append_left_inj, List.append_left_inj,
    List.append_left_inj]
  simp only [classGraphSettings, List.flatMap_append, List.flatMap_cons, List.flatMap_nil,
    Statement.text, attributesText, List.append_assoc, List.nil_append,
    Bytes.ofString_append_ofString, ← Bytes.ofString_append, String.reduceAppend]

/-! ## Attributes of edges -/

theorem mem_classEdgeStatement {theme : Theme} {greatest : Nat} {edge : ClassEdge}
    {name value : Bytes} :
    (name, value) ∈ (classEdgeStatement theme greatest edge).attributes ↔
      name = "penwidth" ∧ value = penWidth edge.weight greatest ∨
      edge.dispatch = true ∧ name = "color" ∧ value = quoted theme.dispatchEdge ∨
      1 < edge.weight ∧ name = "label" ∧ value = weightLabel theme edge.weight := by
  simp only [classEdgeStatement, Statement.attributes, dispatchColour, severalLabel,
    List.mem_cons, List.mem_append, Prod.mk.injEq]
  refine or_congr_right (or_congr ?_ ?_)
  · cases edge.dispatch <;> simp
  · by_cases several : 1 < edge.weight <;> simp [several]

theorem color_mem_classEdgeStatement {theme : Theme} {greatest : Nat} {edge : ClassEdge}
    {colour : Bytes} :
    (Bytes.ofString "color", colour) ∈ (classEdgeStatement theme greatest edge).attributes ↔
      edge.dispatch = true ∧ colour = quoted theme.dispatchEdge := by
  have noWidth : Bytes.ofString "color" ≠ "penwidth" := by decide
  have noLabel : Bytes.ofString "color" ≠ "label" := by decide
  simp only [mem_classEdgeStatement, noWidth, noLabel, false_and, and_false, true_and, or_false,
    false_or]

theorem label_mem_classEdgeStatement {theme : Theme} {greatest : Nat} {edge : ClassEdge}
    {label : Bytes} :
    (Bytes.ofString "label", label) ∈ (classEdgeStatement theme greatest edge).attributes ↔
      1 < edge.weight ∧ label = weightLabel theme edge.weight := by
  have noWidth : Bytes.ofString "label" ≠ "penwidth" := by decide
  have noColour : Bytes.ofString "label" ≠ "color" := by decide
  simp only [mem_classEdgeStatement, noWidth, noColour, false_and, and_false, true_and, false_or]

end ClassAudit
