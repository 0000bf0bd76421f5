import ClassAudit.Proofs.AssemblyPoolProperties
import ClassAudit.Proofs.DecodeProperties
import Mathlib.Data.List.Forall2

/-!
# Properties of assembling

Steps are followed by a plan: what they ask of the class beside its pool. Every step
carries the plan and the indices returned so far over to the next assembly. A finished
assembly decodes to a class that realizes the plan, in which every index leads to what it
was returned for.
-/

set_option autoImplicit false

namespace ClassAudit

/-! ## Plans -/

/-- A method that was asked for, by its texts or by arbitrary indices. -/
inductive PlannedMethod where
  | named (name descriptor : Bytes)
  | indexed (access : UInt16) (name descriptor : PoolIndex)
  deriving DecidableEq, Repr

/-- What steps ask of a class beside its pool. The last name given counts. -/
structure ClassPlan where
  minor : UInt16
  major : UInt16
  access : UInt16
  thisName? : Option Bytes
  superName? : Option Bytes
  noSuper : Bool
  interfaces : List Bytes
  fieldCount : Nat
  methods : List PlannedMethod
  attributeCount : Nat
  trailing : Bytes
  deriving DecidableEq, Repr

namespace ClassPlan

def start (minor major access : UInt16) : ClassPlan :=
  { minor, major, access, thisName? := none, superName? := none, noSuper := false,
    interfaces := [], fieldCount := 0, methods := [], attributeCount := 0, trailing := [] }

def after (plan : ClassPlan) : AssemblyStep → ClassPlan
  | .setThis name => { plan with thisName? := some name }
  | .setSuper name => { plan with superName? := some name }
  | .setNoSuper => { plan with noSuper := true }
  | .addInterface name => { plan with interfaces := plan.interfaces ++ [name] }
  | .addField _ _ => { plan with fieldCount := plan.fieldCount + 1 }
  | .addMethod name descriptor =>
      { plan with methods := plan.methods ++ [.named name descriptor] }
  | .addMethodIndices access name descriptor =>
      { plan with methods := plan.methods ++ [.indexed access name descriptor] }
  | .addAttribute _ _ => { plan with attributeCount := plan.attributeCount + 1 }
  | .addTrailing bytes => { plan with trailing := plan.trailing ++ bytes }
  | _ => plan

/-- The plan with the names that a finished class has where none was given. -/
def finished (plan : ClassPlan) : ClassPlan :=
  { plan with
    thisName? := some (plan.thisName?.getD "Test")
    superName? := plan.superName?.orElse fun _ =>
      if plan.noSuper then none else some (Bytes.ofString "java/lang/Object") }

def TablesFit (plan : ClassPlan) : Prop :=
  plan.interfaces.length ≤ 65535 ∧ plan.fieldCount ≤ 65535 ∧ plan.methods.length ≤ 65535 ∧
    plan.attributeCount ≤ 65535

instance (plan : ClassPlan) : Decidable plan.TablesFit := inferInstanceAs (Decidable (_ ∧ _))

end ClassPlan

/-- An index stands for an optional class name. No name is index 0. -/
def NamesClass (denotes : PoolIndex → AssemblyStep → Prop) (index : PoolIndex) :
    Option Bytes → Prop
  | none => index = 0
  | some name => denotes index (.className name)

/-- Flags and indices are those of a planned method. -/
def PlannedMethod.Describes (denotes : PoolIndex → AssemblyStep → Prop) (access : UInt16)
    (name descriptor : PoolIndex) : PlannedMethod → Prop
  | .named givenName givenDescriptor =>
      access = 0x0001 ∧ denotes name (.text givenName) ∧
        denotes descriptor (.text givenDescriptor)
  | .indexed givenAccess givenName givenDescriptor =>
      access = givenAccess ∧ name = givenName ∧ descriptor = givenDescriptor

/-- An assembly is what a plan asks for, when indices denote as `denotes` says. -/
structure ClassPlan.Tracks (plan : ClassPlan) (denotes : PoolIndex → AssemblyStep → Prop)
    (assembly : Assembly) : Prop where
  minor : assembly.minor = plan.minor
  major : assembly.major = plan.major
  access : assembly.access = plan.access
  thisClass : NamesClass denotes assembly.thisClass plan.thisName?
  superClass : NamesClass denotes assembly.superClass plan.superName?
  noSuper : assembly.noSuper = plan.noSuper
  interfaces : List.Forall₂ (fun index name => denotes index (.className name))
    assembly.interfaces plan.interfaces
  fieldCount : assembly.fields.length = plan.fieldCount
  fieldsFit : ∀ field ∈ assembly.fields, field.Fits
  methods : List.Forall₂
    (fun member planned => PlannedMethod.Describes denotes member.access member.name
      member.descriptor planned ∧ member.attributes.length = 1)
    assembly.methods plan.methods
  methodsFit : ∀ method ∈ assembly.methods, method.Fits
  attributeCount : assembly.attributes.length = plan.attributeCount
  attributesFit : ∀ item ∈ assembly.attributes, item.Fits
  trailing : assembly.trailing = plan.trailing

theorem NamesClass.mono {denotes kept : PoolIndex → AssemblyStep → Prop}
    (keeps : ∀ index step, denotes index step → kept index step) {index : PoolIndex}
    {name? : Option Bytes} (names : NamesClass denotes index name?) :
    NamesClass kept index name? := by
  cases name? with
  | none => exact names
  | some name => exact keeps _ _ names

theorem PlannedMethod.Describes.mono {denotes kept : PoolIndex → AssemblyStep → Prop}
    (keeps : ∀ index step, denotes index step → kept index step) {access : UInt16}
    {name descriptor : PoolIndex} {planned : PlannedMethod}
    (describes : planned.Describes denotes access name descriptor) :
    planned.Describes kept access name descriptor := by
  cases planned with
  | named givenName givenDescriptor =>
      obtain ⟨flags, named, described⟩ := describes
      exact ⟨flags, keeps _ _ named, keeps _ _ described⟩
  | indexed givenAccess givenName givenDescriptor => exact describes

theorem ClassPlan.Tracks.mono {plan : ClassPlan} {denotes kept : PoolIndex → AssemblyStep → Prop}
    (keeps : ∀ index step, denotes index step → kept index step) {assembly : Assembly}
    (tracks : plan.Tracks denotes assembly) : plan.Tracks kept assembly :=
  { tracks with
    thisClass := tracks.thisClass.mono keeps
    superClass := tracks.superClass.mono keeps
    interfaces := tracks.interfaces.imp fun _ _ names => keeps _ _ names
    methods := tracks.methods.imp fun _ _ method => ⟨method.1.mono keeps, method.2⟩ }

theorem ClassPlan.tracks_withoutPool {plan : ClassPlan}
    {denotes : PoolIndex → AssemblyStep → Prop} {assembly : Assembly} :
    plan.Tracks denotes assembly.withoutPool ↔ plan.Tracks denotes assembly := by
  constructor <;>
  · intro tracks
    exact ⟨tracks.minor, tracks.major, tracks.access, tracks.thisClass, tracks.superClass,
      tracks.noSuper, tracks.interfaces, tracks.fieldCount, tracks.fieldsFit, tracks.methods,
      tracks.methodsFit, tracks.attributeCount, tracks.attributesFit, tracks.trailing⟩

theorem Assembly.Adds.tracks {before after : Assembly} (adds : before.Adds after)
    {plan : ClassPlan} (tracks : plan.Tracks (Denotes before.Holds) before) :
    plan.Tracks (Denotes after.Holds) after := by
  rw [← ClassPlan.tracks_withoutPool, adds.frame, ClassPlan.tracks_withoutPool]
  exact tracks.mono fun _ _ => adds.denotes

section Updates

variable {plan : ClassPlan} {denotes : PoolIndex → AssemblyStep → Prop} {assembly : Assembly}

theorem ClassPlan.Tracks.addInterface (tracks : plan.Tracks denotes assembly)
    {index : PoolIndex} {name : Bytes} (named : denotes index (.className name)) :
    { plan with interfaces := plan.interfaces ++ [name] }.Tracks denotes
      { assembly with interfaces := assembly.interfaces ++ [index] } :=
  { tracks with interfaces := List.rel_append tracks.interfaces (.cons named .nil) }

theorem ClassPlan.Tracks.addField (tracks : plan.Tracks denotes assembly) {field : Member}
    (fits : field.Fits) :
    { plan with fieldCount := plan.fieldCount + 1 }.Tracks denotes
      { assembly with fields := assembly.fields ++ [field] } :=
  { tracks with
    fieldCount := List.length_append.trans (congrArg (· + 1) tracks.fieldCount)
    fieldsFit := List.forall_mem_append.2 ⟨tracks.fieldsFit, List.forall_mem_singleton.2 fits⟩ }

theorem ClassPlan.Tracks.addMethod (tracks : plan.Tracks denotes assembly) {method : Member}
    {planned : PlannedMethod}
    (describes : planned.Describes denotes method.access method.name method.descriptor)
    (single : method.attributes.length = 1) (fits : method.Fits) :
    { plan with methods := plan.methods ++ [planned] }.Tracks denotes
      { assembly with methods := assembly.methods ++ [method] } :=
  { tracks with
    methods := List.rel_append tracks.methods (.cons ⟨describes, single⟩ .nil)
    methodsFit := List.forall_mem_append.2 ⟨tracks.methodsFit, List.forall_mem_singleton.2 fits⟩ }

theorem ClassPlan.Tracks.addAttribute (tracks : plan.Tracks denotes assembly) {item : Attribute}
    (fits : item.Fits) :
    { plan with attributeCount := plan.attributeCount + 1 }.Tracks denotes
      { assembly with attributes := assembly.attributes ++ [item] } :=
  { tracks with
    attributeCount := List.length_append.trans (congrArg (· + 1) tracks.attributeCount)
    attributesFit :=
      List.forall_mem_append.2 ⟨tracks.attributesFit, List.forall_mem_singleton.2 fits⟩ }

end Updates

/-! ## Steps -/

/-- A step without raw bytes whose texts and bodies can be written. -/
def AssemblyStep.Admitted : AssemblyStep → Prop
  | .text value => TextFits value
  | .className name => TextFits name
  | .integer _ => True
  | .long _ => True
  | .double _ => True
  | .string value => TextFits value
  | .nameAndType name descriptor => TextFits name ∧ TextFits descriptor
  | .member _ owner name descriptor => TextFits owner ∧ TextFits name ∧ TextFits descriptor
  | .raw _ _ => False
  | .setThis name => TextFits name
  | .setSuper name => TextFits name
  | .setNoSuper => True
  | .addInterface name => TextFits name
  | .addField name descriptor => TextFits name ∧ TextFits descriptor
  | .addMethod name descriptor => TextFits name ∧ TextFits descriptor
  | .addMethodIndices _ _ _ => True
  | .addAttribute name body => TextFits name ∧ body.length < 0x100000000
  | .addTrailing _ => True
  | .finish => False

instance : DecidablePred AssemblyStep.Admitted
  | .text _ | .className _ | .string _ | .setThis _ | .setSuper _ | .addInterface _ =>
      inferInstanceAs (Decidable (TextFits _))
  | .nameAndType _ _ | .addField _ _ | .addMethod _ _ =>
      inferInstanceAs (Decidable (TextFits _ ∧ TextFits _))
  | .member _ _ _ _ => inferInstanceAs (Decidable (TextFits _ ∧ TextFits _ ∧ TextFits _))
  | .addAttribute _ _ => inferInstanceAs (Decidable (TextFits _ ∧ _ < _))
  | .integer _ | .long _ | .double _ | .setNoSuper | .addMethodIndices _ _ _
  | .addTrailing _ => inferInstanceAs (Decidable True)
  | .raw _ _ | .finish => inferInstanceAs (Decidable False)

/-- Whether a step changes members or names and returns no index. -/
def AssemblyStep.silent : AssemblyStep → Bool
  | .setThis _ => true
  | .setSuper _ => true
  | .setNoSuper => true
  | .addInterface _ => true
  | .addField _ _ => true
  | .addMethod _ _ => true
  | .addMethodIndices _ _ _ => true
  | .addAttribute _ _ => true
  | .addTrailing _ => true
  | _ => false

/-- A step returned an index that denotes what it asked for, or nothing if it is silent. -/
def AssemblyStep.Returned (denotes : PoolIndex → AssemblyStep → Prop) (step : AssemblyStep) :
    AssemblyItem → Prop
  | .index index => denotes index step
  | .nothing => step.silent = true
  | .file _ => False

theorem AssemblyStep.Returned.mono {denotes kept : PoolIndex → AssemblyStep → Prop}
    (keeps : ∀ index step, denotes index step → kept index step) {step : AssemblyStep}
    {item : AssemblyItem} (returned : step.Returned denotes item) :
    step.Returned kept item := by
  cases item with
  | index index => exact keeps _ _ returned
  | nothing => exact returned
  | file bytes => exact returned

/-- One step was carried out: the pool grew, the plan went on by the step, and what was
returned denotes what was asked for. -/
structure AssemblyStep.Carried (step : AssemblyStep) (plan : ClassPlan)
    (before : Assembly) (item : AssemblyItem) (after : Assembly) : Prop where
  sound : after.Sound
  grown : before.constants <+: after.constants
  tracks : (plan.after step).Tracks (Denotes after.Holds) after
  returned : step.Returned (Denotes after.Holds) item

/-- Two assemblies share their pool and its tables. -/
structure Assembly.SamePool (before after : Assembly) : Prop where
  pool : after.pool = before.pool
  next : after.next = before.next
  texts : after.texts = before.texts
  classes : after.classes = before.classes

theorem Assembly.SamePool.constants {before after : Assembly} (same : before.SamePool after) :
    after.constants = before.constants := by
  rw [Assembly.constants, same.pool, Assembly.constants]

theorem Assembly.SamePool.holds {before after : Assembly} (same : before.SamePool after) :
    after.Holds = before.Holds := by
  funext index constant
  rw [Assembly.Holds, same.constants, Assembly.Holds]

theorem Assembly.SamePool.sound {before after : Assembly} (same : before.SamePool after)
    (sound : before.Sound) : after.Sound where
  constants := by rw [same.pool, same.constants, ← sound.constants]
  next := by rw [same.next, same.constants, ← sound.next]
  textsFit := by
    rw [same.constants]
    exact sound.textsFit
  texts := by
    rw [same.texts, same.holds]
    exact sound.texts
  classes := by
    rw [same.classes, same.holds]
    exact sound.classes

theorem Assembly.Adds.update {before middle after : Assembly} (adds : before.Adds middle)
    (same : middle.SamePool after) :
    after.Sound ∧ before.constants <+: after.constants := by
  refine ⟨same.sound adds.sound, ?_⟩
  rw [same.constants]
  exact adds.grown

namespace AssemblyStep

open Assembling

variable {plan : ClassPlan} {before middle after : Assembly} {step : AssemblyStep}

/-- A step that only adds to the pool leaves its plan alone. -/
theorem carried_of_adds {index : PoolIndex} (adds : before.Adds after)
    (denotes : Denotes after.Holds index step) (unplanned : plan.after step = plan)
    (tracks : plan.Tracks (Denotes before.Holds) before) :
    step.Carried plan before (.index index) after where
  sound := adds.sound
  grown := adds.grown
  tracks := by
    rw [unplanned]
    exact adds.tracks tracks
  returned := denotes

/-- A silent step adds to the pool first and changes the rest afterwards. -/
theorem carried_of_update (adds : before.Adds middle) (same : middle.SamePool after)
    (tracks : (plan.after step).Tracks (Denotes middle.Holds) after)
    (silent : step.silent = true) : step.Carried plan before .nothing after where
  sound := (adds.update same).1
  grown := (adds.update same).2
  tracks := by
    rw [same.holds]
    exact tracks
  returned := silent

theorem setThis_carried (sound : before.Sound)
    (tracks : plan.Tracks (Denotes before.Holds) before) {name : Bytes} (fits : TextFits name) :
    (AssemblyStep.setThis name).Carried plan before .nothing
      (Assembling.setThis name before).2 := by
  obtain ⟨adds, denotes⟩ := className_adds sound fits
  exact carried_of_update adds ⟨rfl, rfl, rfl, rfl⟩
    { adds.tracks tracks with thisClass := denotes } rfl

theorem setSuper_carried (sound : before.Sound)
    (tracks : plan.Tracks (Denotes before.Holds) before) {name : Bytes} (fits : TextFits name) :
    (AssemblyStep.setSuper name).Carried plan before .nothing
      (Assembling.setSuper name before).2 := by
  obtain ⟨adds, denotes⟩ := className_adds sound fits
  exact carried_of_update adds ⟨rfl, rfl, rfl, rfl⟩
    { adds.tracks tracks with superClass := denotes } rfl

theorem addInterface_carried (sound : before.Sound)
    (tracks : plan.Tracks (Denotes before.Holds) before) {name : Bytes} (fits : TextFits name) :
    (AssemblyStep.addInterface name).Carried plan before .nothing
      (Assembling.addInterface name before).2 := by
  obtain ⟨adds, denotes⟩ := className_adds sound fits
  exact carried_of_update adds ⟨rfl, rfl, rfl, rfl⟩
    ((adds.tracks tracks).addInterface denotes) rfl

theorem addField_eq (name descriptor : Bytes) (assembly : Assembly) :
    (Assembling.addField name descriptor assembly).2 =
      let named := Assembling.text name assembly
      let described := Assembling.text descriptor named.2
      let marked := Assembling.text "Synthetic" described.2
      { marked.2 with
        fields := marked.2.fields ++ [⟨0x0002, named.1, described.1, [⟨marked.1, []⟩]⟩] } :=
  rfl

theorem addField_carried (sound : before.Sound)
    (tracks : plan.Tracks (Denotes before.Holds) before) {name descriptor : Bytes}
    (nameFits : TextFits name) (descriptorFits : TextFits descriptor) :
    (AssemblyStep.addField name descriptor).Carried plan before .nothing
      (Assembling.addField name descriptor before).2 := by
  obtain ⟨named, -⟩ := text_adds sound nameFits
  obtain ⟨described, -⟩ := text_adds named.sound descriptorFits
  have markFits : TextFits (Bytes.ofString "Synthetic") := by decide +kernel
  obtain ⟨marked, -⟩ := text_adds described.sound markFits
  have adds := (named.trans described).trans marked
  rw [addField_eq]
  refine carried_of_update adds ⟨rfl, rfl, rfl, rfl⟩ ((adds.tracks tracks).addField ?_) rfl
  simp [Member.Fits, TableFits, Attribute.Fits]

/-- The text that names the code of a method is added first, and then the method. -/
theorem addMethodIndices_tracks (sound : before.Sound)
    (tracks : plan.Tracks (Denotes before.Holds) before) {access : UInt16}
    {name descriptor : PoolIndex} {planned : PlannedMethod}
    (describes : planned.Describes (Denotes before.Holds) access name descriptor) :
    ∃ middle, before.Adds middle ∧
      middle.SamePool (Assembling.addMethodIndices access name descriptor before).2 ∧
      { plan with methods := plan.methods ++ [planned] }.Tracks (Denotes middle.Holds)
        (Assembling.addMethodIndices access name descriptor before).2 := by
  have codeFits : TextFits (Bytes.ofString "Code") := by decide +kernel
  obtain ⟨adds, -⟩ := text_adds sound codeFits
  have described := describes.mono fun _ _ => adds.denotes
  refine ⟨_, adds, ⟨rfl, rfl, rfl, rfl⟩, (adds.tracks tracks).addMethod described rfl ?_⟩
  simp [Member.Fits, TableFits, Attribute.Fits, returnCode]

theorem addMethodIndices_carried (sound : before.Sound)
    (tracks : plan.Tracks (Denotes before.Holds) before) (access : UInt16)
    (name descriptor : PoolIndex) :
    (AssemblyStep.addMethodIndices access name descriptor).Carried plan before .nothing
      (Assembling.addMethodIndices access name descriptor before).2 := by
  have given : (PlannedMethod.indexed access name descriptor).Describes (Denotes before.Holds)
      access name descriptor := ⟨rfl, rfl, rfl⟩
  obtain ⟨middle, adds, same, planned⟩ := addMethodIndices_tracks sound tracks given
  exact carried_of_update adds same planned rfl

theorem addMethod_carried (sound : before.Sound)
    (tracks : plan.Tracks (Denotes before.Holds) before) {name descriptor : Bytes}
    (nameFits : TextFits name) (descriptorFits : TextFits descriptor) :
    (AssemblyStep.addMethod name descriptor).Carried plan before .nothing
      (Assembling.addMethod name descriptor before).2 := by
  obtain ⟨named, denotesName⟩ := text_adds sound nameFits
  obtain ⟨described, denotesDescriptor⟩ := text_adds named.sound descriptorFits
  have texts := named.trans described
  have given : (PlannedMethod.named name descriptor).Describes
      (Denotes (Assembling.text descriptor (Assembling.text name before).2).2.Holds) 0x0001
      (Assembling.text name before).1
      (Assembling.text descriptor (Assembling.text name before).2).1 :=
    ⟨rfl, described.denotes denotesName, denotesDescriptor⟩
  obtain ⟨middle, adds, same, planned⟩ :=
    addMethodIndices_tracks texts.sound (texts.tracks tracks) given
  exact carried_of_update (texts.trans adds) same planned rfl

theorem addAttribute_carried (sound : before.Sound)
    (tracks : plan.Tracks (Denotes before.Holds) before) {name body : Bytes}
    (nameFits : TextFits name) (bodyFits : body.length < 0x100000000) :
    (AssemblyStep.addAttribute name body).Carried plan before .nothing
      (Assembling.addAttribute name body before).2 := by
  obtain ⟨adds, -⟩ := text_adds sound nameFits
  exact carried_of_update adds ⟨rfl, rfl, rfl, rfl⟩
    ((adds.tracks tracks).addAttribute bodyFits) rfl

theorem run_carried (sound : before.Sound)
    (tracks : plan.Tracks (Denotes before.Holds) before) (step : AssemblyStep)
    (admitted : step.Admitted) :
    step.Carried plan before (step.run before).1 (step.run before).2 := by
  cases step with
  | text value =>
      obtain ⟨adds, denotes⟩ := text_adds sound admitted
      exact carried_of_adds adds denotes rfl tracks
  | className name =>
      obtain ⟨adds, denotes⟩ := className_adds sound admitted
      exact carried_of_adds adds denotes rfl tracks
  | integer value =>
      exact carried_of_adds (addConstant_adds sound (.integer value) (by simp))
        (.integer (holds_addConstant sound _)) rfl tracks
  | long value =>
      exact carried_of_adds (addConstant_adds sound (.long value) (by simp))
        (.long (holds_addConstant sound _)) rfl tracks
  | double bits =>
      exact carried_of_adds (addConstant_adds sound (.double bits) (by simp))
        (.double (holds_addConstant sound _)) rfl tracks
  | string value =>
      obtain ⟨adds, denotes⟩ := string_adds sound admitted
      exact carried_of_adds adds denotes rfl tracks
  | nameAndType name descriptor =>
      obtain ⟨adds, denotes⟩ := nameAndType_adds sound admitted.1 admitted.2
      exact carried_of_adds adds denotes rfl tracks
  | member kind owner name descriptor =>
      obtain ⟨ownerFits, nameFits, descriptorFits⟩ := admitted
      obtain ⟨adds, denotes⟩ := member_adds sound kind ownerFits nameFits descriptorFits
      exact carried_of_adds adds denotes rfl tracks
  | raw tag body => exact absurd admitted id
  | setThis name => exact setThis_carried sound tracks admitted
  | setSuper name => exact setSuper_carried sound tracks admitted
  | setNoSuper =>
      exact carried_of_update (.refl sound) ⟨rfl, rfl, rfl, rfl⟩
        { tracks with noSuper := rfl } rfl
  | addInterface name => exact addInterface_carried sound tracks admitted
  | addField name descriptor => exact addField_carried sound tracks admitted.1 admitted.2
  | addMethod name descriptor => exact addMethod_carried sound tracks admitted.1 admitted.2
  | addMethodIndices access name descriptor =>
      exact addMethodIndices_carried sound tracks access name descriptor
  | addAttribute name body => exact addAttribute_carried sound tracks admitted.1 admitted.2
  | addTrailing bytes =>
      refine carried_of_update (.refl sound) ⟨rfl, rfl, rfl, rfl⟩
        { tracks with trailing := ?_ } rfl
      exact congrArg (· ++ bytes) tracks.trailing
  | finish => exact absurd admitted id

end AssemblyStep

/-! ## Runs -/

/-- A run of admitted steps carries the plan and every returned index to its end. -/
theorem runAssembly_carried (steps : List AssemblyStep) {plan : ClassPlan} {assembly : Assembly}
    (sound : assembly.Sound) (tracks : plan.Tracks (Denotes assembly.Holds) assembly)
    (admitted : ∀ step ∈ steps, step.Admitted) :
    (runAssembly steps assembly).2.Sound ∧
      assembly.constants <+: (runAssembly steps assembly).2.constants ∧
      (steps.foldl ClassPlan.after plan).Tracks (Denotes (runAssembly steps assembly).2.Holds)
        (runAssembly steps assembly).2 ∧
      List.Forall₂ (AssemblyStep.Returned (Denotes (runAssembly steps assembly).2.Holds))
        steps (runAssembly steps assembly).1 := by
  induction steps generalizing plan assembly with
  | nil => exact ⟨sound, List.prefix_refl _, tracks, .nil⟩
  | cons step steps ih =>
      have carried := AssemblyStep.run_carried sound tracks step (admitted step (by simp))
      obtain ⟨endSound, grown, endTracks, returned⟩ := ih carried.sound carried.tracks
        fun later member => admitted later (by simp [member])
      -- what the first step returned still denotes the same, since the pool only grew
      have first := carried.returned.mono fun _ _ denotes =>
        Denotes.mono (Assembly.holds_of_grown grown) denotes
      exact ⟨endSound, carried.grown.trans grown, endTracks, .cons first returned⟩

def Assembly.start (minor major access : UInt16) : Assembly :=
  { Assembly.new with minor, major, access }

theorem Assembly.start_sound (minor major access : UInt16) :
    (Assembly.start minor major access).Sound where
  constants := rfl
  next := rfl
  textsFit := by
    intro text member
    cases member
  texts := by
    intro value index
    constructor
    · intro found
      cases found
    · intro held
      obtain ⟨slot, placed, _⟩ := held
      cases placed
  classes := by
    intro name index found
    cases found

theorem ClassPlan.start_tracks (minor major access : UInt16)
    (denotes : PoolIndex → AssemblyStep → Prop) :
    (ClassPlan.start minor major access).Tracks denotes (Assembly.start minor major access) where
  minor := rfl
  major := rfl
  access := rfl
  thisClass := rfl
  superClass := rfl
  noSuper := rfl
  interfaces := .nil
  fieldCount := rfl
  fieldsFit := by
    intro field member
    cases member
  methods := .nil
  methodsFit := by
    intro method member
    cases member
  attributeCount := rfl
  attributesFit := by
    intro item member
    cases member
  trailing := rfl

/-! ## Finishing -/

namespace Assembly

def withThis (assembly : Assembly) : Assembly :=
  if assembly.thisClass = 0 then (Assembling.setThis "Test" assembly).2 else assembly

def withSuper (assembly : Assembly) : Assembly :=
  if assembly.superClass = 0 && !assembly.noSuper then
    (Assembling.setSuper "java/lang/Object" assembly).2
  else assembly

end Assembly

def Assembling.finishNamed : Assembling Bytes := do
  if (← get).superClass = 0 && !(← get).noSuper then setSuper "java/lang/Object"
  return (← get).encode

theorem finishNamed_eq (assembly : Assembly) :
    Assembling.finishNamed assembly = (assembly.withSuper.encode, assembly.withSuper) := by
  change (if assembly.superClass = 0 && !assembly.noSuper then _ else _ :
    Assembling Bytes) assembly = _
  unfold Assembly.withSuper
  split <;> rfl

theorem finish_eq (assembly : Assembly) :
    Assembling.finish assembly =
      (assembly.withThis.withSuper.encode, assembly.withThis.withSuper) := by
  change (if assembly.thisClass = 0 then
    Assembling.setThis "Test" >>= fun _ => Assembling.finishNamed
    else Assembling.finishNamed : Assembling Bytes) assembly = _
  unfold Assembly.withThis
  split <;> exact finishNamed_eq _

theorem slotsTaken_le_of_grown {before after : Assembly} (beforeSound : before.Sound)
    (afterSound : after.Sound) (grown : before.constants <+: after.constants) :
    before.slotsTaken ≤ after.slotsTaken := by
  obtain ⟨added, extended⟩ := grown
  have taken := afterSound.slotAfter_constants
  rw [← extended, slotAfter_append, beforeSound.slotAfter_constants,
    slotAfter_eq_add_length] at taken
  omega

/-- Within the bound of an index, a class has index 0 exactly when it has no name. -/
theorem namesClass_zero_iff {assembly : Assembly} (sound : assembly.Sound)
    (bounded : assembly.slotsTaken ≤ 65534) {index : PoolIndex} {name? : Option Bytes}
    (names : NamesClass (Denotes assembly.Holds) index name?) : index = 0 ↔ name? = none := by
  cases name? with
  | none => exact ⟨fun _ => rfl, fun _ => names⟩
  | some name =>
      cases names with
      | className entry named => simp [sound.index_ne_zero bounded entry]

theorem testFits : TextFits (Bytes.ofString "Test") := by decide +kernel

theorem objectFits : TextFits (Bytes.ofString "java/lang/Object") := by decide +kernel

theorem withThis_grows {assembly : Assembly} (sound : assembly.Sound) :
    assembly.withThis.Sound ∧ assembly.constants <+: assembly.withThis.constants := by
  unfold Assembly.withThis
  split
  · obtain ⟨adds, -⟩ := Assembling.className_adds sound testFits
    exact adds.update ⟨rfl, rfl, rfl, rfl⟩
  · exact ⟨sound, List.prefix_refl _⟩

theorem withSuper_grows {assembly : Assembly} (sound : assembly.Sound) :
    assembly.withSuper.Sound ∧ assembly.constants <+: assembly.withSuper.constants := by
  unfold Assembly.withSuper
  split
  · obtain ⟨adds, -⟩ := Assembling.className_adds sound objectFits
    exact adds.update ⟨rfl, rfl, rfl, rfl⟩
  · exact ⟨sound, List.prefix_refl _⟩

theorem withThis_tracks {plan : ClassPlan} {assembly : Assembly} (sound : assembly.Sound)
    (bounded : assembly.slotsTaken ≤ 65534)
    (tracks : plan.Tracks (Denotes assembly.Holds) assembly) :
    { plan with thisName? := some (plan.thisName?.getD "Test") }.Tracks
      (Denotes assembly.withThis.Holds) assembly.withThis := by
  have unnamed := namesClass_zero_iff sound bounded tracks.thisClass
  cases named : plan.thisName? with
  | some name =>
      have kept : assembly.withThis = assembly := if_neg (by simp [unnamed, named])
      rw [kept]
      exact { tracks with thisClass := named ▸ tracks.thisClass }
  | none =>
      have given : assembly.withThis = (Assembling.setThis "Test" assembly).2 :=
        if_pos (unnamed.2 named)
      rw [given]
      exact (AssemblyStep.setThis_carried sound tracks testFits).tracks

theorem withSuper_tracks {plan : ClassPlan} {assembly : Assembly} (sound : assembly.Sound)
    (bounded : assembly.slotsTaken ≤ 65534)
    (tracks : plan.Tracks (Denotes assembly.Holds) assembly) :
    { plan with superName? := plan.superName?.orElse fun _ =>
        if plan.noSuper then none else some (Bytes.ofString "java/lang/Object") }.Tracks
      (Denotes assembly.withSuper.Holds) assembly.withSuper := by
  have unnamed := namesClass_zero_iff sound bounded tracks.superClass
  -- the default is used only where no name was given and none was ruled out
  cases named : plan.superName? with
  | some name =>
      have kept : assembly.withSuper = assembly := if_neg (by simp [unnamed, named])
      have names : NamesClass (Denotes assembly.Holds) assembly.superClass (some name) :=
        named ▸ tracks.superClass
      rw [kept]
      exact { tracks with superClass := names }
  | none =>
      have zero := unnamed.2 named
      cases refused : plan.noSuper with
      | true =>
          have kept : assembly.withSuper = assembly :=
            if_neg (by simp [tracks.noSuper, refused])
          rw [kept]
          exact { tracks with superClass := zero, noSuper := tracks.noSuper.trans refused }
      | false =>
          have given : assembly.withSuper =
              (Assembling.setSuper "java/lang/Object" assembly).2 :=
            if_pos (by simp [zero, tracks.noSuper, refused])
          have carried := (AssemblyStep.setSuper_carried sound tracks objectFits).tracks
          rw [given]
          exact { carried with noSuper := carried.noSuper.trans refused }

/-- A finished assembly is the one the plan asks for, with the missing names filled in. -/
theorem finish_tracks {plan : ClassPlan} {assembly : Assembly} (sound : assembly.Sound)
    (bounded : assembly.withThis.withSuper.slotsTaken ≤ 65534)
    (tracks : plan.Tracks (Denotes assembly.Holds) assembly) :
    assembly.withThis.withSuper.Sound ∧
      assembly.constants <+: assembly.withThis.withSuper.constants ∧
      plan.finished.Tracks (Denotes assembly.withThis.withSuper.Holds)
        assembly.withThis.withSuper := by
  obtain ⟨namedSound, namedGrown⟩ := withThis_grows sound
  obtain ⟨finalSound, finalGrown⟩ := withSuper_grows namedSound
  -- the bound of the finished pool holds of every earlier one
  have namedBounded := Nat.le_trans (slotsTaken_le_of_grown namedSound finalSound finalGrown)
    bounded
  have startBounded := Nat.le_trans (slotsTaken_le_of_grown sound namedSound namedGrown)
    namedBounded
  have named := withThis_tracks sound startBounded tracks
  exact ⟨finalSound, namedGrown.trans finalGrown, withSuper_tracks namedSound namedBounded named⟩

/-! ## Decoding a finished assembly -/

def Assembly.raw (assembly : Assembly) : RawClass :=
  { minor := assembly.minor, major := assembly.major, poolCount := assembly.next,
    constants := assembly.constants, access := assembly.access,
    thisClass := assembly.thisClass, superClass := assembly.superClass,
    interfaces := assembly.interfaces, fields := assembly.fields,
    methods := assembly.methods, attributes := assembly.attributes }

theorem Assembly.Sound.encode_eq {assembly : Assembly} (sound : assembly.Sound) :
    assembly.encode = assembly.raw.encode ++ assembly.trailing := by
  have pool : assembly.pool.flatMap PoolItem.encode =
      assembly.constants.flatMap Constant.encode := by
    rw [sound.constants, List.flatMap_map]
    rfl
  simp [Assembly.encode, RawClass.encode, RawClass.encodeBeforeMethods, Assembly.raw, pool,
    encodeTable]

theorem Assembly.Sound.raw_fits {assembly : Assembly} (sound : assembly.Sound)
    (bounded : assembly.slotsTaken ≤ 65534) {plan : ClassPlan} (tables : plan.TablesFit)
    {denotes : PoolIndex → AssemblyStep → Prop} (tracks : plan.Tracks denotes assembly) :
    assembly.raw.Fits := by
  obtain ⟨interfaces, fields, methods, attributes⟩ := tables
  rw [← tracks.interfaces.length_eq] at interfaces
  rw [← tracks.fieldCount] at fields
  rw [← tracks.methods.length_eq] at methods
  rw [← tracks.attributeCount] at attributes
  have ended := sound.toNat_next bounded
  exact
    { poolDeclared := by
        change 1 ≤ assembly.next.toNat
        rw [ended, sound.slotAfter_constants]
        omega
      starts := by
        intro entry placed
        change entry.1 < assembly.next.toNat
        rw [ended]
        exact (lt_slotAfter_of_placed placed).2
      ends := .inl ended.symm
      constants := by
        intro constant member
        cases constant with
        | utf8 text => exact Nat.lt_succ_of_le (sound.textsFit text member).1
        | _ => exact trivial
      interfaces := Nat.lt_succ_of_le interfaces
      fields := ⟨Nat.lt_succ_of_le fields, tracks.fieldsFit⟩
      methods := ⟨Nat.lt_succ_of_le methods, tracks.methodsFit⟩
      attributes := ⟨Nat.lt_succ_of_le attributes, tracks.attributesFit⟩ }

/-- A class file is what a plan asks for: its versions and flags, the names its indices
lead to, its methods in order, and the sizes of its other tables. -/
structure ClassFile.Realizes (file : ClassFile) (plan : ClassPlan) : Prop where
  minor : file.minor = plan.minor
  major : file.major = plan.major
  access : file.access = plan.access
  name : ∃ name, plan.thisName? = some name ∧ file.name = .ok name
  superName : file.superName = .ok (plan.superName?.getD [])
  interfaces : List.Forall₂ (fun index name => file.pool.className index = .ok name)
    file.interfaces plan.interfaces
  fieldCount : file.fieldCount = plan.fieldCount
  methods : List.Forall₂
    (fun method planned => PlannedMethod.Describes file.pool.Answers method.access method.name
      method.descriptor planned ∧ method.attributeCount = 1)
    file.methods plan.methods
  attributeCount : file.attributeCount = plan.attributeCount

theorem Pool.className_zero (pool : Pool) (name : Bytes) : pool.className 0 ≠ .ok name := by
  simp [Pool.className, Pool.entry, bind, Except.bind]

theorem ClassFile.superName_of_namesClass {file : ClassFile} {name? : Option Bytes}
    (names : NamesClass file.pool.Answers file.superClass name?) :
    file.superName = .ok (name?.getD []) := by
  unfold ClassFile.superName
  cases name? with
  | none => exact if_pos names
  | some name =>
      split
      · next zero =>
          rw [zero] at names
          exact absurd names (file.pool.className_zero name)
      · exact names

theorem ClassFile.Shows.map_methods {file : ClassFile} {raw : RawClass}
    (shown : file.Shows raw) :
    file.methods.map (fun method =>
        (method.access, method.name, method.descriptor, method.attributeCount)) =
      raw.methods.map fun member =>
        (member.access, member.name, member.descriptor, member.attributes.length) := by
  apply List.ext_getElem?
  intro index
  rw [List.getElem?_map, shown.methods, List.getElem?_map, Option.map_map]
  rfl

theorem ClassPlan.Tracks.realizes {plan : ClassPlan} {assembly : Assembly} {file : ClassFile}
    (shown : file.Shows assembly.raw) (tracks : plan.Tracks file.pool.Answers assembly)
    (named : plan.thisName?.isSome = true) : file.Realizes plan where
  minor := shown.minor.trans tracks.minor
  major := shown.major.trans tracks.major
  access := shown.access.trans tracks.access
  name := by
    obtain ⟨name, given⟩ := Option.isSome_iff_exists.1 named
    have answers := tracks.thisClass
    rw [given] at answers
    refine ⟨name, given, ?_⟩
    rw [ClassFile.name, shown.thisClass]
    exact answers
  superName := by
    apply ClassFile.superName_of_namesClass
    rw [shown.superClass]
    exact tracks.superClass
  interfaces := by
    rw [shown.interfaces]
    exact tracks.interfaces
  fieldCount := shown.fieldCount.trans tracks.fieldCount
  methods := by
    have entries : List.Forall₂
        (fun entry planned => PlannedMethod.Describes file.pool.Answers entry.1 entry.2.1
          entry.2.2.1 planned ∧ entry.2.2.2 = 1)
        (assembly.raw.methods.map fun member =>
          (member.access, member.name, member.descriptor, member.attributes.length))
        plan.methods := List.forall₂_map_left_iff.2 tracks.methods
    rw [← shown.map_methods] at entries
    exact List.forall₂_map_left_iff.1 entries
  attributeCount := shown.attributeCount.trans tracks.attributeCount

theorem runAssembly_finish (steps : List AssemblyStep) (assembly : Assembly) :
    runAssembly (steps ++ [.finish]) assembly =
      ((runAssembly steps assembly).1 ++
          [.file (Assembling.finish (runAssembly steps assembly).2).1],
        (Assembling.finish (runAssembly steps assembly).2).2) := by
  induction steps generalizing assembly with
  | nil => rfl
  | cons step steps ih =>
      simp only [List.cons_append, runAssembly, ih]
      rfl

theorem decode_assembly {plan : ClassPlan} {assembly : Assembly} (sound : assembly.Sound)
    (bounded : assembly.slotsTaken ≤ 65534) (tables : plan.TablesFit)
    (named : plan.thisName?.isSome = true)
    (tracks : plan.Tracks (Denotes assembly.Holds) assembly) :
    ∃ file, decode .bestEffort assembly.encode = .ok file ∧
      (∀ index step, Denotes assembly.Holds index step → file.pool.Answers index step) ∧
      file.pool.count = assembly.next.toNat ∧ file.Realizes plan ∧
      file.diagnostics.filter (·.kind = .trailing) =
        if plan.trailing = [] then [] else
          [⟨.trailing, assembly.encode.length - plan.trailing.length, none,
            decimal plan.trailing.length ++ " trailing bytes ignored"⟩] := by
  have fits := sound.raw_fits bounded tables tracks
  have shown := fits.interpret_shows ⟨assembly.raw.encode.length, assembly.trailing⟩
  have answers : ∀ index step, Denotes assembly.Holds index step →
      (Pool.ofConstants assembly.next assembly.constants).Answers index step := by
    intro index step denotes
    exact (denotes.mono (sound.entry_of_holds bounded)).answers
  have start : (assembly.encode.length : Int) - plan.trailing.length =
      assembly.raw.encode.length := by
    rw [sound.encode_eq, List.length_append, tracks.trailing, Int.natCast_add,
      Int.add_sub_cancel]
  refine ⟨_, ?_, answers, shown.poolCount, (tracks.mono answers).realizes shown named, ?_⟩
  · rw [sound.encode_eq]
    exact decode_encode fits assembly.trailing
  · rw [filter_trailing_interpret, trailingDiagnostics_mk, start, tracks.trailing]

/-- A finished run within the bound of an index: the last assembly is sound and is written
as the file, it tracks the finished plan, and no returned index has changed its meaning. -/
theorem finished_run_carried {minor major access : UInt16} {steps : List AssemblyStep}
    {plan : ClassPlan} {items : List AssemblyItem} {data : Bytes} {final : Assembly}
    (admitted : ∀ step ∈ steps, step.Admitted)
    (planned : steps.foldl ClassPlan.after (ClassPlan.start minor major access) = plan)
    (ran : runAssembly (steps ++ [.finish]) (Assembly.start minor major access) =
      (items ++ [.file data], final))
    (bounded : final.slotsTaken ≤ 65534) :
    data = final.encode ∧ final.Sound ∧ plan.finished.Tracks (Denotes final.Holds) final ∧
      List.Forall₂ (AssemblyStep.Returned (Denotes final.Holds)) steps items := by
  obtain ⟨sound, -, tracks, returned⟩ := runAssembly_carried steps
    (Assembly.start_sound minor major access) (ClassPlan.start_tracks minor major access _)
    admitted
  rw [planned] at tracks
  rw [runAssembly_finish, finish_eq] at ran
  obtain ⟨sameItems, sameFinal⟩ := Prod.mk.inj ran
  obtain ⟨rfl, sameData⟩ := List.append_inj' sameItems rfl
  have written := AssemblyItem.file.inj (List.singleton_inj.1 sameData)
  subst sameFinal
  obtain ⟨finalSound, grown, finalTracks⟩ := finish_tracks sound bounded tracks
  refine ⟨written.symm, finalSound, finalTracks, returned.imp ?_⟩
  intro step item denoted
  exact denoted.mono fun _ _ => Denotes.mono (Assembly.holds_of_grown grown)

/-- Decoding undoes assembling. Steps without raw bytes, whose texts and tables can be
written, give a file that decodes to what the steps asked for. Every index that any step
returned leads to what the step asked for, and one text has one index. -/
theorem decode_undoes_assembly (minor major access : UInt16) (steps : List AssemblyStep)
    {plan : ClassPlan} {items : List AssemblyItem} {data : Bytes} {final : Assembly}
    (admitted : ∀ step ∈ steps, step.Admitted)
    (planned : steps.foldl ClassPlan.after (ClassPlan.start minor major access) = plan)
    (ran : runAssembly (steps ++ [.finish]) (Assembly.start minor major access) =
      (items ++ [.file data], final))
    (poolFits : final.slotsTaken ≤ 65534) (tablesFit : plan.TablesFit) :
    ∃ file, decode .bestEffort data = .ok file ∧
      List.Forall₂ (AssemblyStep.Returned file.pool.Answers) steps items ∧
      (∀ value other index otherIndex,
        (AssemblyStep.text value, AssemblyItem.index index) ∈ steps.zip items →
        (AssemblyStep.text other, AssemblyItem.index otherIndex) ∈ steps.zip items →
        (value = other ↔ index = otherIndex)) ∧
      file.pool.count = final.next.toNat ∧ file.Realizes plan.finished ∧
      file.diagnostics.filter (·.kind = .trailing) =
        if plan.trailing = [] then [] else
          [⟨.trailing, data.length - plan.trailing.length, none,
            decimal plan.trailing.length ++ " trailing bytes ignored"⟩] := by
  obtain ⟨rfl, sound, tracks, returned⟩ :=
    finished_run_carried admitted planned ran poolFits
  have tables : plan.finished.TablesFit := tablesFit
  obtain ⟨file, decoded, answers, count, realizes, trailing⟩ :=
    decode_assembly sound poolFits tables rfl tracks
  refine ⟨file, decoded, ?_, ?_, count, realizes, trailing⟩
  · exact returned.imp fun _ _ denoted => denoted.mono answers
  · intro value other index otherIndex asked askedOther
    have denotes := (List.forall₂_iff_zip.1 returned).2 asked
    have denotesOther := (List.forall₂_iff_zip.1 returned).2 askedOther
    constructor
    · intro same
      subst same
      cases denotes with
      | text held =>
          cases denotesOther with
          | text otherHeld => exact sound.index_eq_of_text held otherHeld
    · intro same
      subst same
      have first : file.pool.utf8 index = .ok value := answers _ _ denotes
      have second : file.pool.utf8 index = .ok other := answers _ _ denotesOther
      exact Except.ok.inj (first.symm.trans second)

/-- Steps with a wide constant, a shared text beyond ASCII, a class without a superclass, a
method whose descriptor leads nowhere and a trailing byte. -/
def mixedSteps : List AssemblyStep :=
  [.long 7, .text "é😀", .member .method "A" "m" "()V", .setNoSuper, .text "m", .text "é😀",
    .addInterface "I", .addField "f" "I", .addMethod "m" "()V",
    .addMethodIndices 0x0009 3 40, .addAttribute "X" [1, 2], .addTrailing [0xFF]]

theorem decode_undoes_assembly_mixed :
    (∀ step ∈ mixedSteps, step.Admitted) ∧
      ∃ data final file,
        runAssembly (mixedSteps ++ [.finish]) (Assembly.start 0 52 0x0021) =
          ([.index 1, .index 3, .index 9, .nothing, .index 6, .index 3, .nothing, .nothing,
            .nothing, .nothing, .nothing, .nothing] ++ [.file data], final) ∧
        final.slotsTaken = 17 ∧ decode .bestEffort data = .ok file ∧
        file.pool.count = 18 ∧ file.pool.utf8 3 = .ok "é😀" ∧
        file.pool.member 9 = .ok ⟨.method, "A", "m", "()V"⟩ ∧
        file.name = .ok "Test" ∧ file.superName = .ok [] ∧ file.methods.length = 2 := by
  have admitted : ∀ step ∈ mixedSteps, step.Admitted := by decide +kernel
  have returned : (runAssembly mixedSteps (Assembly.start 0 52 0x0021)).1 =
      [.index 1, .index 3, .index 9, .nothing, .index 6, .index 3, .nothing, .nothing,
        .nothing, .nothing, .nothing, .nothing] := by decide +kernel
  have ran := runAssembly_finish mixedSteps (Assembly.start 0 52 0x0021)
  rw [returned] at ran
  have taken : (Assembling.finish
      (runAssembly mixedSteps (Assembly.start 0 52 0x0021)).2).2.slotsTaken = 17 := by
    decide +kernel
  have next : (Assembling.finish
      (runAssembly mixedSteps (Assembly.start 0 52 0x0021)).2).2.next = 18 := by
    decide +kernel
  obtain ⟨file, decoded, resolved, -, count, realizes, -⟩ :=
    decode_undoes_assembly 0 52 0x0021 mixedSteps admitted rfl ran (by rw [taken]; decide)
      (by decide)
  obtain ⟨name, given, named⟩ := realizes.name
  have text : file.pool.Answers 3 (.text "é😀") :=
    (List.forall₂_iff_get.1 resolved).2 1 (by decide) (by decide)
  have member : file.pool.Answers 9 (.member .method "A" "m" "()V") :=
    (List.forall₂_iff_get.1 resolved).2 2 (by decide) (by decide)
  rw [next] at count
  refine ⟨admitted, _, _, file, ran, taken, decoded, count, text, member, ?_,
    realizes.superName, realizes.methods.length_eq⟩
  rw [named, ← Option.some.inj given]
  rfl

end ClassAudit
