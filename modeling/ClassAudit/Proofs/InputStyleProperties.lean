import ClassAudit.Proofs.ClassDrawingProperties
import ClassAudit.Proofs.DecodeProperties
import ClassAudit.Proofs.ReferenceProperties

/-!
# The styles of class nodes

A class graph knows its inputs by their references only. A class that is drawn has the style of an
input exactly when an input of its name holds a method reference that resolves, so that an input
without such a reference looks external wherever another class refers to it.
-/

set_option autoImplicit false

namespace ClassAudit

/-! ## References of inputs -/

/-- The references of decoded inputs, each under its path, one input after the other. -/
def inputReferences (inputs : List (Bytes × ClassFile)) : List Reference :=
  inputs.flatMap fun input => (fileReferences input.1 (.ok input.2)).1

/-- Whether some constant of a class is a method reference that resolves. -/
def ClassFile.HoldsMethodReference (file : ClassFile) : Prop :=
  ∃ entry ∈ file.pool.entries, entry.2.isMethodReference = true ∧
    ∃ member, file.pool.member entry.1 = .ok member

/-- Whether one of the inputs is a class of a name. -/
def namesInput (inputs : List (Bytes × ClassFile)) (name : Bytes) : Bool :=
  inputs.any fun input => decide (input.2.name.toOption = some name)

theorem namesInput_iff {inputs : List (Bytes × ClassFile)} {name : Bytes} :
    namesInput inputs name = true ↔ ∃ input ∈ inputs, input.2.name = .ok name := by
  simp only [namesInput, List.any_eq_true, decide_eq_true_eq, toOption_eq_some_iff]

theorem isInput_inputReferences_iff {inputs : List (Bytes × ClassFile)} {name : Bytes} :
    isInput (inputReferences inputs) name = true ↔
      ∃ input ∈ inputs, input.2.name = .ok name ∧ input.2.HoldsMethodReference := by
  simp only [isInput, inputReferences, List.any_eq_true, List.mem_flatMap, beq_iff_eq]
  constructor
  · intro found
    obtain ⟨reference, ⟨input, listed, held⟩, rfl⟩ := found
    obtain ⟨source, named, entry, member, method, resolved, met, rfl⟩ := mem_fileReferences.mp held
    exact ⟨input, listed, named, entry, member, method, resolved, met⟩
  · intro found
    obtain ⟨input, listed, named, entry, member, method, resolved, met⟩ := found
    refine ⟨resolved.reference name, ⟨input, listed, ?_⟩, rfl⟩
    exact mem_fileReferences.mpr ⟨name, named, entry, member, method, resolved, met, rfl⟩

/-! ## Styles in the text -/

def classNodeOpening (name : Bytes) : Bytes :=
  "  " ++ nodeId name ++ " [label=<<font point-size=\"10\">" ++ escapeMarkup (dottedName name) ++
    "</font>>"

/-- The colours of the external style and the end of its statement, behind the first comma. -/
def externalColours (theme : Theme) : Bytes :=
  " fillcolor=" ++ quoted theme.externalFill ++ ", fontcolor=" ++ quoted theme.externalText ++
    "];\n"

theorem classNodeLine_of_input (theme : Theme) {input : Bytes → Bool} {name : Bytes}
    (solid : input name = true) :
    classNodeLine theme input name = classNodeOpening name ++ 0x5D :: ";\n" := by
  rw [classNodeLine, if_pos solid, List.append_nil]
  rfl

theorem classNodeLine_of_external (theme : Theme) {input : Bytes → Bool} {name : Bytes}
    (external : input name = false) :
    classNodeLine theme input name =
      classNodeOpening name ++ 0x2C :: externalColours theme := by
  rw [classNodeLine, if_neg (ne_true_of_eq_false external), List.append_assoc]
  rfl

theorem classNodeLine_congr (theme : Theme) {left right : Bytes → Bool} {name : Bytes}
    (same : left name = right name) :
    classNodeLine theme left name = classNodeLine theme right name := by
  rw [classNodeLine, classNodeLine, same]

theorem classNodeLine_append_inj {theme : Theme} {left right : Bytes → Bool} {name : Bytes}
    {after others : Bytes}
    (same : classNodeLine theme left name ++ after = classNodeLine theme right name ++ others) :
    left name = right name ∧ after = others := by
  -- behind the label a solid statement closes, and an external one goes on with a comma
  have alike : left name = right name := by
    cases leftStyle : left name with
    | true =>
        cases rightStyle : right name with
        | true => rfl
        | false =>
            rw [classNodeLine_of_input theme leftStyle, classNodeLine_of_external theme rightStyle,
              List.append_assoc, List.append_assoc] at same
            cases List.append_cancel_left same
    | false =>
        cases rightStyle : right name with
        | true =>
            rw [classNodeLine_of_external theme leftStyle, classNodeLine_of_input theme rightStyle,
              List.append_assoc, List.append_assoc] at same
            cases List.append_cancel_left same
        | false => rfl
  rw [classNodeLine_congr theme alike] at same
  exact ⟨alike, List.append_cancel_left same⟩

theorem classNodeLines_inj {theme : Theme} {left right : Bytes → Bool} {classes : List Bytes} :
    classes.flatMap (classNodeLine theme left) = classes.flatMap (classNodeLine theme right) ↔
      ∀ name ∈ classes, left name = right name := by
  induction classes with
  | nil => simp
  | cons name classes ih =>
      rw [List.flatMap_cons, List.flatMap_cons, List.forall_mem_cons, ← ih]
      constructor
      · exact classNodeLine_append_inj
      · intro alike
        rw [classNodeLine_congr theme alike.1, alike.2]

/-- The class graph of references under a style for every class. -/
def styledDrawing (references : List Reference) (title : Bytes) (theme : Theme) (limit : Int)
    (solid : Bytes → Bool) : Bytes :=
  classGraphText title theme solid (drawnClasses references limit)
    (greatestWeight (drawnEdges references limit)) (drawnEdges references limit)

/-- Two styles give the same text only if they agree on every class that is drawn. -/
theorem styledDrawing_inj {references : List Reference} {title : Bytes} {theme : Theme}
    {limit : Int} {left right : Bytes → Bool} :
    styledDrawing references title theme limit left =
        styledDrawing references title theme limit right ↔
      ∀ name ∈ drawnClasses references limit, left name = right name := by
  have nodes : (drawnClasses references limit).flatMap (classNodeLine theme left) =
      (drawnClasses references limit).flatMap (classNodeLine theme right) ↔
        ∀ name ∈ drawnClasses references limit, left name = right name := classNodeLines_inj
  rw [← nodes]
  unfold styledDrawing classGraphText
  rw [List.append_left_inj, List.append_left_inj, List.append_left_inj, List.append_right_inj]

/-- A drawing has only one text. In it a class is solid exactly when an input of its name holds a
method reference that resolves. The text in which exactly the inputs are solid is therefore drawn
if and only if every input that is drawn holds such a reference, itself or under its name. -/
theorem inputs_drawn_solid_iff_referencing (inputs : List (Bytes × ClassFile)) (title : Bytes)
    (theme : Theme) (limit : Int) :
    (∀ text, DrawsTo (inputReferences inputs) title theme limit text ↔
      text = styledDrawing (inputReferences inputs) title theme limit
        (isInput (inputReferences inputs))) ∧
    (∀ name, isInput (inputReferences inputs) name = true ↔
      ∃ input ∈ inputs, input.2.name = .ok name ∧ input.2.HoldsMethodReference) ∧
    (DrawsTo (inputReferences inputs) title theme limit
        (styledDrawing (inputReferences inputs) title theme limit (namesInput inputs)) ↔
      ∀ name ∈ drawnClasses (inputReferences inputs) limit,
        (∃ input ∈ inputs, input.2.name = .ok name) →
          ∃ input ∈ inputs, input.2.name = .ok name ∧ input.2.HoldsMethodReference) := by
  refine ⟨fun text => drawsTo_iff, fun name => isInput_inputReferences_iff, ?_⟩
  rw [drawsTo_iff]
  change styledDrawing _ _ _ _ _ = styledDrawing _ _ _ _ (isInput _) ↔ _
  rw [styledDrawing_inj]
  refine forall₂_congr ?_
  intro name _
  rw [Bool.eq_iff_iff, namesInput_iff, isInput_inputReferences_iff]
  constructor
  · intro same
    exact same.mp
  · intro holding
    refine ⟨holding, ?_⟩
    intro held
    obtain ⟨input, listed, named, _⟩ := held
    exact ⟨input, listed, named⟩

/-- A class that refers to a method of another class. -/
def callingClass : RawClass :=
  { minor := 0, major := 52, poolCount := 9,
    constants := [.utf8 "app/A", .classRef 1, .utf8 "app/B", .classRef 3, .utf8 "run", .utf8 "()V",
      .nameAndType 5 6, .member .method 4 7],
    access := 0x0021, thisClass := 2, superClass := 0, interfaces := [], fields := [],
    methods := [], attributes := [] }

def calledClass : RawClass :=
  { minor := 0, major := 52, poolCount := 3, constants := [.utf8 "app/B", .classRef 1],
    access := 0x0021, thisClass := 2, superClass := 0, interfaces := [], fields := [],
    methods := [], attributes := [] }

def calledInputs : List (Bytes × ClassFile) :=
  [("A.class", callingClass.interpret ⟨callingClass.encode.length, []⟩),
    ("B.class", calledClass.interpret ⟨calledClass.encode.length, []⟩)]

theorem called_input_drawn_external :
    (∀ input ∈ calledInputs, ∃ data, decode .bestEffort data = .ok input.2) ∧
      namesInput calledInputs "app/B" = true ∧
      Bytes.ofString "app/B" ∈ drawnClasses (inputReferences calledInputs) 0 ∧
      isInput (inputReferences calledInputs) "app/B" = false ∧
      ¬ DrawsTo (inputReferences calledInputs) "" .monochrome 0
        (styledDrawing (inputReferences calledInputs) "" .monochrome 0
          (namesInput calledInputs)) := by
  have references : inputReferences calledInputs = [⟨"app/A", "app/B", "run", "()V", false⟩] := by
    decide
  have named : namesInput calledInputs "app/B" = true := by decide
  have drawn : Bytes.ofString "app/B" ∈ drawnClasses (inputReferences calledInputs) 0 := by
    rw [references, drawnClasses, rankedClasses_of_call (by decide)]
    decide
  have external : isInput (inputReferences calledInputs) "app/B" = false := by
    rw [references]
    decide
  refine ⟨?_, named, drawn, external, ?_⟩
  · unfold calledInputs
    refine List.forall_mem_cons.mpr ⟨⟨_, decode_encode (by decide) []⟩, ?_⟩
    exact List.forall_mem_singleton.mpr ⟨_, decode_encode (by decide) []⟩
  · rw [drawsTo_iff]
    intro same
    have alike := styledDrawing_inj.mp same _ drawn
    rw [external, named] at alike
    cases alike

end ClassAudit
