import ClassAudit.CommandLine.Session
import ClassAudit.Proofs.ScheduleProperties
import ClassAudit.Proofs.SelectionProperties

/-!
# Verdicts of lint commands

A lint command succeeds exactly when it reaches a report and nothing stands in it: the
configuration selects rules, every input can be walked, every file decodes, and no rule is
violated. Workers, the form of the report and its colours change nothing about this.
-/

set_option autoImplicit false

namespace ClassAudit

/-! ## What a request asks for -/

/-- The configuration and the inputs that a request names. Without a flag for it, the
configuration is the first argument. -/
def LintRequest.Names (request : LintRequest) (config : Bytes) (inputs : List Bytes) : Prop :=
  inputs ≠ [] ∧
    (request.config ≠ [] ∧ config = request.config ∧ inputs = request.arguments ∨
      request.config = [] ∧ request.arguments = config :: inputs)

/-- The rules that the configuration at a path activates, if it activates any. -/
def Disk.Configures (disk : Disk) (config : Bytes) (rules : List Rule) : Prop :=
  ∃ settings, disk.loadSettings config = .ok settings ∧
    rules = RuleKind.catalog.filterMap (activeRule? settings) ∧ rules ≠ []

/-- The rules and the files that a request comes down to on a disk. -/
def LintRequest.Covers (request : LintRequest) (disk : Disk) (rules : List Rule)
    (files : List Bytes) : Prop :=
  ∃ config inputs, request.Names config inputs ∧ disk.Configures config rules ∧
    disk.walk inputs = .ok files

theorem LintRequest.target_eq_ok_iff {request : LintRequest} {config : Bytes}
    {inputs : List Bytes} :
    request.target = .ok (config, inputs) ↔ request.Names config inputs := by
  obtain ⟨given, arguments, workers, json, strict, style⟩ := request
  unfold LintRequest.target LintRequest.Names
  cases given with
  | nil =>
      cases arguments with
      | nil => simp
      | cons first others =>
          cases others with
          | nil => grind
          | cons second others => grind
  | cons byte given =>
      cases arguments with
      | nil => grind
      | cons first others => grind

theorem Disk.loadRules_eq_ok_iff {disk : Disk} {config : Bytes} {rules : List Rule} :
    disk.loadRules config = .ok rules ↔ disk.Configures config rules := by
  constructor
  · intro loaded
    obtain ⟨settings, read, selected⟩ := bind_eq_ok loaded
    exact ⟨settings, read, selectRules_eq_ok_iff.mp (mapError_eq_ok_iff.mp selected)⟩
  · rintro ⟨settings, read, selected⟩
    rw [Disk.loadRules, read]
    exact mapError_eq_ok_iff.mpr (selectRules_eq_ok_iff.mpr selected)

theorem LintRequest.covers_iff {disk : Disk} {request : LintRequest} {rules : List Rule}
    {files : List Bytes} :
    request.Covers disk rules files ↔
      ∃ config inputs, request.target = .ok (config, inputs) ∧
        disk.loadRules config = .ok rules ∧ disk.walk inputs = .ok files := by
  unfold LintRequest.Covers
  simp only [LintRequest.target_eq_ok_iff, Disk.loadRules_eq_ok_iff]

theorem Disk.expand_of_walk {disk : Disk} {inputs files : List Bytes}
    (walked : disk.walk inputs = .ok files) : disk.expand inputs = files := by
  rw [Disk.expand, walked]
  rfl

/-! ## Clean reports -/

section

variable {options : OpenOptions} {disk : Disk}

theorem Disk.mem_classesOf_iff {files : List Bytes} {path : Bytes} {file : ClassFile} :
    (path, file) ∈ disk.classesOf options files ↔
      path ∈ files ∧ disk.openClass options path = .ok file := by
  rw [Disk.classesOf, List.mem_filterMap]
  constructor
  · rintro ⟨other, member, shown⟩
    obtain ⟨found, opened, same⟩ := Option.map_eq_some_iff.mp shown
    cases same
    cases outcome : disk.openClass options path with
    | error error =>
        rw [outcome] at opened
        cases opened
    | ok decoded =>
        rw [outcome] at opened
        cases opened
        exact ⟨member, rfl⟩
  · rintro ⟨member, opened⟩
    exact ⟨path, member, by rw [opened]; rfl⟩

theorem mem_resultsOf_iff {rules : List Rule} {classes : List (Bytes × ClassFile)}
    {result : RuleResult} :
    result ∈ resultsOf rules classes ↔
      ∃ path file, (path, file) ∈ classes ∧ ∃ rule ∈ rules, evaluate path file rule = result := by
  rw [resultsOf, List.mem_flatMap]
  constructor
  · rintro ⟨⟨path, file⟩, member, judged⟩
    exact ⟨path, file, member, List.mem_map.mp judged⟩
  · rintro ⟨path, file, member, judged⟩
    exact ⟨(path, file), member, List.mem_map.mpr judged⟩

/-- Every file decodes, and no rule finds anything in it. -/
def Disk.Passes (options : OpenOptions) (disk : Disk) (rules : List Rule) (files : List Bytes) :
    Prop :=
  ∀ path ∈ files, ∃ file, disk.openClass options path = .ok file ∧
    ∀ rule ∈ rules, (evaluate path file rule).violations = []

theorem Report.Accounts.clean_iff {paths : List Bytes} {rules : List Rule} {report : Report}
    (accounts : report.Accounts options disk paths rules) :
    report.clean = true ↔ disk.Passes options rules (disk.expand paths) := by
  unfold Report.clean
  rw [Bool.and_eq_true, List.isEmpty_iff, List.all_eq_true, accounts.results,
    ← List.map_eq_nil_iff, accounts.failed, List.filter_eq_nil_iff]
  constructor
  · rintro ⟨decodes, passes⟩ path member
    cases opened : disk.openClass options path with
    | error error =>
        refine absurd ?_ (decodes path member)
        rw [opened]
        rfl
    | ok file =>
        refine ⟨file, rfl, ?_⟩
        intro rule selected
        have judged := mem_resultsOf_iff.mpr
          ⟨path, file, Disk.mem_classesOf_iff.mpr ⟨member, opened⟩, rule, selected, rfl⟩
        exact List.isEmpty_iff.mp (passes _ judged)
  · intro passes
    constructor
    · intro path member
      obtain ⟨file, opened, -⟩ := passes path member
      rw [opened]
      nofun
    · intro result judged
      obtain ⟨path, file, member, rule, selected, rfl⟩ := mem_resultsOf_iff.mp judged
      obtain ⟨present, opened⟩ := Disk.mem_classesOf_iff.mp member
      obtain ⟨other, again, unviolated⟩ := passes path present
      cases opened.symm.trans again
      exact List.isEmpty_iff.mpr (unviolated rule selected)

theorem Report.exitCode_verdict (report : Report) :
    (exitCode report.verdict == 0) = report.clean := by
  unfold Report.verdict
  cases report.clean with
  | false => rfl
  | true => rfl

end

/-! ## The first field of a document -/

/-- A document with one object in it, whose first field has the name and the value. No later
field has the name. -/
def Json.LeadsWith (name : String) (value : Json) (text : Bytes) : Prop :=
  ∃ others, text = (Json.object (Json.field name value :: others)).document ∧
    ∀ field ∈ others, field.1 ≠ name

theorem Json.render_bool_append_inj {first second : Bool} {level : Nat} {left right : Bytes}
    (same : render level (.bool first) ++ left = render level (.bool second) ++ right) :
    first = second := by
  cases first with
  | false =>
      cases second with
      | false => rfl
      | true => cases (List.cons.inj same).1
  | true =>
      cases second with
      | false => cases (List.cons.inj same).1
      | true => rfl

/-- What stands first is read back from the text alone. -/
theorem Json.LeadsWith.unique {name : String} {first second : Bool} {text : Bytes}
    (one : LeadsWith name (.bool first) text) (other : LeadsWith name (.bool second) text) :
    first = second := by
  obtain ⟨left, rfl, -⟩ := one
  obtain ⟨right, same, -⟩ := other
  simp only [document, render, renderField, field, List.append_assoc] at same
  exact render_bool_append_inj (by simpa only [List.append_cancel_left_eq] using same)

theorem Report.document_leadsWith (report : Report) :
    Json.LeadsWith "ok" (.bool report.clean) report.toJson.document := by
  have distinct : ∀ name ∈ ["files", "violations", "results", "failures"],
      Bytes.ofString name ≠ ("ok" : String) := by decide
  have later : ∀ name ∈ ["files", "violations", "results", "failures"], ∀ value,
      (Json.field name value).1 ≠ ("ok" : String) := by
    intro name member _
    exact distinct name member
  refine ⟨_, rfl, List.forall_mem_cons.mpr ⟨later _ (by decide) _, ?_⟩⟩
  refine List.forall_mem_cons.mpr ⟨later _ (by decide) _, ?_⟩
  refine List.forall_mem_cons.mpr ⟨later _ (by decide) _, ?_⟩
  intro field member
  rw [Json.fieldWhen] at member
  split at member
  · rw [List.mem_singleton.mp member]
    exact later _ (by decide) _
  · cases member

/-! ## Runs of a lint command -/

/-- What can be seen of a run: its verdict, its output, and the paths that it opened, in
order. -/
@[ext] structure LintTrace where
  verdict : Except CommandError Unit
  output : Bytes
  opened : List Bytes

/-- The runs of a lint command. The workers may take their steps in any order that they can
follow. -/
inductive LintRun (disk : Disk) (request : LintRequest) : LintTrace → Prop
  | untargeted {error : CommandError} (targeted : request.target = .error error) :
      LintRun disk request ⟨.error error, [], []⟩
  | unconfigured {config : Bytes} {inputs : List Bytes} {error : LoadError}
      (targeted : request.target = .ok (config, inputs))
      (loaded : disk.loadRules config = .error error) :
      LintRun disk request ⟨.error (.config config error), [], []⟩
  | unwalked {config : Bytes} {inputs : List Bytes} {rules : List Rule} {error : WalkError}
      (targeted : request.target = .ok (config, inputs))
      (loaded : disk.loadRules config = .ok rules) (walked : disk.walk inputs = .error error) :
      LintRun disk request ⟨.error (.run (.unwalked error)), [], []⟩
  | reported {config : Bytes} {inputs files : List Bytes} {rules : List Rule}
      {workshop : Workshop} {report : Report}
      (targeted : request.target = .ok (config, inputs))
      (loaded : disk.loadRules config = .ok rules) (walked : disk.walk inputs = .ok files)
      (reached : Workshop.Reaches (openOptions request.strict) disk request.workers
        (.start (commandRunner request.strict).cache? files) workshop)
      (finished : workshop.report? rules = some report) :
      LintRun disk request
        ⟨report.verdict, report.printed request.json request.style, workshop.opened⟩

section

variable {disk : Disk} {request : LintRequest}

/-- However the workers go about it, the report is clean exactly when every file passes. -/
theorem Workshop.Reaches.clean_iff {strict : Bool} {workers : Int} {inputs files : List Bytes}
    {rules : List Rule} {workshop : Workshop} {report : Report}
    (walked : disk.walk inputs = .ok files)
    (reached : Workshop.Reaches (openOptions strict) disk workers
      (.start (commandRunner strict).cache? files) workshop)
    (finished : workshop.report? rules = some report) :
    report.clean = true ↔ disk.Passes (openOptions strict) rules files := by
  obtain ⟨schedule, followed, rfl⟩ := reached
  cases Disk.expand_of_walk walked
  have started := Workshop.start_sound
    (Runner.new_backs (openOptions strict) defaultCapacity disk) (disk.expand inputs)
  exact ((started.runSchedule followed).report_agrees finished).accounts.clean_iff

/-! ### The sequential command -/

theorem lint_of_untargeted {error : CommandError} (targeted : request.target = .error error) :
    lint disk request = { verdict := .error error } := by
  rw [lint, targeted]

theorem lint_of_unconfigured {config : Bytes} {inputs : List Bytes} {error : LoadError}
    (targeted : request.target = .ok (config, inputs))
    (loaded : disk.loadRules config = .error error) :
    lint disk request = { verdict := .error (.config config error) } := by
  simp only [lint, targeted, loaded]

theorem lint_of_unwalked {config : Bytes} {inputs : List Bytes} {rules : List Rule}
    {error : WalkError} (targeted : request.target = .ok (config, inputs))
    (loaded : disk.loadRules config = .ok rules) (walked : disk.walk inputs = .error error) :
    lint disk request =
      { verdict := .error (.run (.unwalked error)), log := rules.map enabledEntry } := by
  simp only [lint, targeted, loaded, lintInputs, Runner.runInputs, walked]

/-- The command without workers ends in the report of the files one after the other. -/
theorem exists_report_of_walked {config : Bytes} {inputs files : List Bytes} {rules : List Rule}
    (targeted : request.target = .ok (config, inputs))
    (loaded : disk.loadRules config = .ok rules) (walked : disk.walk inputs = .ok files)
    (workers : Int) :
    ∃ report workshop,
      (lint disk request).verdict = report.verdict ∧
      (lint disk request).output = report.printed request.json request.style ∧
      Workshop.Reaches (openOptions request.strict) disk workers
        (.start (commandRunner request.strict).cache? files) workshop ∧
      workshop.report? rules = some report := by
  obtain ⟨works, opened, judged, reached⟩ :=
    Workshop.reaches_judged (commandRunner request.strict) disk workers rules files []
      (List.forall_mem_nil _)
  have ran : lint disk request = lintInputs disk request inputs rules := by
    simp only [lint, targeted, loaded]
  cases Disk.expand_of_walk walked
  -- The run by itself writes the report of these very outcomes.
  have finished := congrArg (Option.map Report.ofOutcomes) judged
  refine ⟨_, _, ?_, ?_, reached, finished⟩
  · rw [ran, lintInputs, Runner.runInputs, walked]
    rfl
  · rw [ran, lintInputs, Runner.runInputs, walked]
    rfl

theorem exists_lintRun (disk : Disk) (request : LintRequest) :
    ∃ opened, LintRun disk request
      ⟨(lint disk request).verdict, (lint disk request).output, opened⟩ := by
  cases targeted : request.target with
  | error error =>
      rw [lint_of_untargeted targeted]
      exact ⟨[], .untargeted targeted⟩
  | ok target =>
      obtain ⟨config, inputs⟩ := target
      cases loaded : disk.loadRules config with
      | error error =>
          rw [lint_of_unconfigured targeted loaded]
          exact ⟨[], .unconfigured targeted loaded⟩
      | ok rules =>
          cases walked : disk.walk inputs with
          | error error =>
              rw [lint_of_unwalked targeted loaded walked]
              exact ⟨[], .unwalked targeted loaded walked⟩
          | ok files =>
              obtain ⟨report, workshop, verdict, output, reached, finished⟩ :=
                exists_report_of_walked targeted loaded walked request.workers
              rw [verdict, output]
              exact ⟨workshop.opened, .reported targeted loaded walked reached finished⟩

/-! ### What the runs have in common -/

/-- A request that comes down to rules and files ends in a report about them. -/
theorem LintRun.reports {trace : LintTrace} {rules : List Rule} {files : List Bytes}
    (run : LintRun disk request trace) (covers : request.Covers disk rules files) :
    ∃ report : Report, trace.verdict = report.verdict ∧
      trace.output = report.printed request.json request.style ∧
      (report.clean = true ↔ disk.Passes (openOptions request.strict) rules files) := by
  obtain ⟨config, inputs, named, configured, expanded⟩ := LintRequest.covers_iff.mp covers
  cases run with
  | untargeted targeted => cases targeted.symm.trans named
  | unconfigured targeted loaded =>
      cases targeted.symm.trans named
      cases loaded.symm.trans configured
  | unwalked targeted loaded walked =>
      cases targeted.symm.trans named
      cases walked.symm.trans expanded
  | reported targeted loaded walked reached finished =>
      cases targeted.symm.trans named
      cases loaded.symm.trans configured
      cases walked.symm.trans expanded
      exact ⟨_, rfl, rfl, reached.clean_iff walked finished⟩

theorem LintRun.covers_of_success {trace : LintTrace} (run : LintRun disk request trace)
    (succeeded : exitCode trace.verdict = 0) :
    ∃ rules files, request.Covers disk rules files := by
  cases run with
  | untargeted targeted => cases succeeded
  | unconfigured targeted loaded => cases succeeded
  | unwalked targeted loaded walked => cases succeeded
  | reported targeted loaded walked reached finished =>
      exact ⟨_, _, LintRequest.covers_iff.mpr ⟨_, _, targeted, loaded, walked⟩⟩

theorem LintRun.exitCode_eq_zero_iff {trace : LintTrace} (run : LintRun disk request trace) :
    exitCode trace.verdict = 0 ↔
      ∃ rules files, request.Covers disk rules files ∧
        disk.Passes (openOptions request.strict) rules files := by
  constructor
  · intro succeeded
    obtain ⟨rules, files, covers⟩ := run.covers_of_success succeeded
    obtain ⟨report, verdict, -, clean⟩ := run.reports covers
    rw [verdict, ← beq_iff_eq, report.exitCode_verdict] at succeeded
    exact ⟨rules, files, covers, clean.mp succeeded⟩
  · rintro ⟨rules, files, covers, passes⟩
    obtain ⟨report, verdict, -, clean⟩ := run.reports covers
    rw [verdict, ← beq_iff_eq, report.exitCode_verdict]
    exact clean.mpr passes

/-- Workers, the form of the report and its colours leave the verdict as it is. -/
theorem LintRun.verdict_eq {workers : Int} {json : Bool} {style : TagStyle} {trace : LintTrace}
    (run : LintRun disk { request with workers, json, style } trace) :
    trace.verdict = (lint disk request).verdict := by
  cases run with
  | untargeted targeted =>
      change request.target = _ at targeted
      rw [lint_of_untargeted targeted]
  | unconfigured targeted loaded =>
      change request.target = _ at targeted
      rw [lint_of_unconfigured targeted loaded]
  | unwalked targeted loaded walked =>
      change request.target = _ at targeted
      rw [lint_of_unwalked targeted loaded walked]
  | reported targeted loaded walked reached finished =>
      change request.target = _ at targeted
      obtain ⟨report, workshop, verdict, -, sequential, written⟩ :=
        exists_report_of_walked targeted loaded walked 1
      rw [verdict]
      unfold Report.verdict
      -- The reports may differ in their failures' paths, but both are clean or neither is.
      have same := (reached.clean_iff walked finished).trans
        (sequential.clean_iff walked written).symm
      rw [Bool.eq_iff_iff.mpr same]

theorem LintRun.leadsWith_ok {trace : LintTrace} {rules : List Rule} {files : List Bytes}
    (run : LintRun disk request trace) (json : request.json = true)
    (covers : request.Covers disk rules files) :
    Json.LeadsWith "ok" (.bool (exitCode trace.verdict == 0)) trace.output := by
  obtain ⟨report, verdict, output, -⟩ := run.reports covers
  rw [verdict, output, report.exitCode_verdict, Report.printed, if_pos json]
  exact report.document_leadsWith

/-! ### Without rules -/

/-- No configuration that the request names activates a rule. -/
def LintRequest.Unruled (request : LintRequest) (disk : Disk) : Prop :=
  ∀ config inputs rules, request.Names config inputs → ¬ disk.Configures config rules

/-- The disks that give the same rules to what the request names as configuration. -/
def LintRequest.ConfiguredAlike (request : LintRequest) (disk other : Disk) : Prop :=
  ∀ config inputs, request.Names config inputs → other.loadRules config = disk.loadRules config

theorem LintRequest.Unruled.of_alike {other : Disk} (unruled : request.Unruled disk)
    (alike : request.ConfiguredAlike disk other) : request.Unruled other := by
  intro config inputs rules named configured
  have loaded := Disk.loadRules_eq_ok_iff.mpr configured
  rw [alike config inputs named] at loaded
  exact unruled config inputs rules named (Disk.loadRules_eq_ok_iff.mp loaded)

/-- A run without rules shows and opens nothing. It is a run on every disk that agrees about
the configuration, whatever the inputs are there. -/
theorem LintRun.of_unruled {other : Disk} {trace : LintTrace} (run : LintRun disk request trace)
    (unruled : request.Unruled disk) (alike : request.ConfiguredAlike disk other) :
    trace.output = [] ∧ trace.opened = [] ∧ LintRun other request trace := by
  cases run with
  | untargeted targeted => exact ⟨rfl, rfl, .untargeted targeted⟩
  | unconfigured targeted loaded =>
      have named := LintRequest.target_eq_ok_iff.mp targeted
      exact ⟨rfl, rfl, .unconfigured targeted ((alike _ _ named).trans loaded)⟩
  | unwalked targeted loaded walked =>
      have named := LintRequest.target_eq_ok_iff.mp targeted
      exact absurd (Disk.loadRules_eq_ok_iff.mp loaded) (unruled _ _ _ named)
  | reported targeted loaded walked reached finished =>
      have named := LintRequest.target_eq_ok_iff.mp targeted
      exact absurd (Disk.loadRules_eq_ok_iff.mp loaded) (unruled _ _ _ named)

theorem LintRun.eq_of_unruled {trace later : LintTrace} (run : LintRun disk request trace)
    (again : LintRun disk request later) (unruled : request.Unruled disk) : later = trace := by
  obtain ⟨output, opened, -⟩ := run.of_unruled unruled fun _ _ _ => rfl
  obtain ⟨laterOutput, laterOpened, -⟩ := again.of_unruled unruled fun _ _ _ => rfl
  exact LintTrace.ext (again.verdict_eq.trans run.verdict_eq.symm)
    (laterOutput.trans output.symm) (laterOpened.trans opened.symm)

end

/-- The verdict of a lint command is sound and complete. The command ends in a run, and every
run succeeds exactly when the request comes down to rules and files that all pass. Neither the
workers nor the form of the report have a part in that, and the report says the same about
itself. Without rules nothing is shown or opened, and the inputs do not matter. -/
theorem lint_succeeds_iff_every_file_passes (disk : Disk) (request : LintRequest) :
    (∃ opened, LintRun disk request
      ⟨(lint disk request).verdict, (lint disk request).output, opened⟩) ∧
    ∀ trace, LintRun disk request trace →
      (exitCode trace.verdict = 0 ↔
        ∃ rules files, request.Covers disk rules files ∧
          disk.Passes (openOptions request.strict) rules files) ∧
      (∀ workers json style other,
        LintRun disk { request with workers, json, style } other →
          other.verdict = trace.verdict) ∧
      (request.json = true → (∃ rules files, request.Covers disk rules files) →
        ∀ ok, Json.LeadsWith "ok" (.bool ok) trace.output ↔ ok = (exitCode trace.verdict == 0)) ∧
      (request.Unruled disk →
        trace.output = [] ∧ trace.opened = [] ∧
        ∀ other, request.ConfiguredAlike disk other →
          ∀ later, LintRun other request later ↔ later = trace) := by
  refine ⟨exists_lintRun disk request, ?_⟩
  intro trace run
  refine ⟨run.exitCode_eq_zero_iff, ?_, ?_, ?_⟩
  · intro workers json style other again
    exact again.verdict_eq.trans run.verdict_eq.symm
  · rintro json ⟨rules, files, covers⟩ ok
    have leads := run.leadsWith_ok json covers
    constructor
    · intro shown
      exact shown.unique leads
    · rintro rfl
      exact leads
  · intro unruled
    obtain ⟨output, opened, -⟩ := run.of_unruled unruled fun _ _ _ => rfl
    refine ⟨output, opened, ?_⟩
    intro other alike later
    obtain ⟨-, -, there⟩ := run.of_unruled unruled alike
    constructor
    · intro again
      exact there.eq_of_unruled again (unruled.of_alike alike)
    · rintro rfl
      exact there

/-- A class with one method. -/
def addingClass : RawClass :=
  { minor := 0, major := 52, poolCount := 2, constants := [.utf8 "add"], access := 0x0021,
    thisClass := 0, superClass := 0, interfaces := [], fields := [],
    methods := [⟨1, 1, 1, []⟩], attributes := [] }

/-- A configuration, a class and a link to the class. -/
def configuredTree : Disk :=
  ⟨.directory [("r.toml", .file "no_binary_in_names=1"), ("a", .file addingClass.encode),
    ("b", .link "a")], []⟩

/-- Two workers on the class and its link. -/
def configuredRequest : LintRequest := ⟨[], ["r.toml", "a", "b"], 2, true, false, .plain⟩

theorem lint_succeeds_iff_every_file_passes_configured :
    exitCode (lint configuredTree configuredRequest).verdict = 0 ∧
      ∃ rules files, configuredRequest.Covers configuredTree rules files ∧
        configuredTree.Passes (openOptions false) rules files := by
  have succeeds : exitCode (lint configuredTree configuredRequest).verdict = 0 := by decide +kernel
  obtain ⟨sequential, runs⟩ := lint_succeeds_iff_every_file_passes configuredTree configuredRequest
  obtain ⟨opened, run⟩ := sequential
  exact ⟨succeeds, (runs _ run).1.mp succeeds⟩

end ClassAudit
