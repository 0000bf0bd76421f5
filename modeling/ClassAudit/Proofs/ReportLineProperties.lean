import ClassAudit.Proofs.LintProperties
import ClassAudit.Proofs.OneLineProperties

/-!
# Lines of a report

A report is written with one line per record, a passing result or a violation, as long as no
record has a line feed of its own. The names of methods are shown as they are, and so are the
descriptors of void methods: a line feed in one of them breaks the line.
-/

set_option autoImplicit false

namespace ClassAudit

/-! ## Texts in lines -/

/-- A text made of lines, each with a line feed at its end and none before. -/
structure InLines (text : Bytes) (lines : List Bytes) : Prop where
  written : text = lines.flatMap (· ++ [0x0A])
  oneLine : ∀ line ∈ lines, OneLine line

theorem count_lineFeed (bodies : List Bytes) :
    (bodies.flatMap (· ++ [0x0A])).count 0x0A = bodies.length + bodies.flatten.count 0x0A := by
  induction bodies with
  | nil => rfl
  | cons body bodies ih =>
      rw [List.flatMap_cons, List.flatten_cons, List.count_append, List.count_append,
        List.count_append, ih, List.length_cons, List.count_singleton_self]
      omega

theorem InLines.count {text : Bytes} {lines : List Bytes} (inLines : InLines text lines) :
    text.count 0x0A = lines.length := by
  have free : lines.flatten.count 0x0A = 0 := by
    refine List.count_eq_zero.mpr ?_
    intro member
    obtain ⟨line, listed, feed⟩ := List.mem_flatten.mp member
    exact inLines.oneLine line listed feed
  rw [inLines.written, count_lineFeed, free, Nat.add_zero]

/-- Bodies with a line feed behind each are on one line each when there are as many line feeds
as bodies. -/
theorem oneLine_of_count {bodies : List Bytes}
    (counted : (bodies.flatMap (· ++ [0x0A])).count 0x0A = bodies.length) :
    ∀ body ∈ bodies, OneLine body := by
  rw [count_lineFeed, Nat.add_eq_left] at counted
  intro body listed feed
  exact List.count_eq_zero.mp counted (List.mem_flatten.mpr ⟨body, listed, feed⟩)

/-! ## Records and their lines -/

/-- The tag of each record of a result: one for a result that passes, else one a violation. -/
def RuleResult.tags (result : RuleResult) : List Bytes :=
  if result.passed then ["[OK]"] else result.violations.map fun _ => "[FAIL]"

/-- The tag of each record of a report, in result order. -/
def Report.tags (report : Report) : List Bytes := report.results.flatMap RuleResult.tags

/-- What a report writes without colours to a sink that refuses nothing. -/
def Report.text (report : Report) : Bytes :=
  ((⟨none, []⟩ : Sink).writeAll (report.lines .plain)).1.written

/-- A text has one line per record of a report, in order, each with the tag of its record first. -/
def Report.LinePerRecord (report : Report) (text : Bytes) : Prop :=
  ∃ lines, InLines text lines ∧ List.Forall₂ (· <+: ·) report.tags lines

/-- The line of a violation without its line feed. -/
def RuleResult.violationBody (result : RuleResult) (violation : Violation) : Bytes :=
  "[FAIL]" ++ result.heading ++ ", (method: " ++ violation.method ++ ") - error: " ++
    violation.kind.name ++ ", trace: " ++ violation.message

/-- The lines of a result without their line feeds. -/
def RuleResult.bodies (result : RuleResult) : List Bytes :=
  if result.passed then ["[OK]" ++ result.heading]
  else result.violations.map result.violationBody

def Report.bodies (report : Report) : List Bytes := report.results.flatMap RuleResult.bodies

theorem Sink.writeAll_written (chunks : List Bytes) (written : Bytes) :
    ((⟨none, written⟩ : Sink).writeAll chunks).1.written = written ++ chunks.flatten := by
  induction chunks generalizing written with
  | nil => exact (List.append_nil written).symm
  | cons chunk chunks ih =>
      rw [List.flatten_cons, ← List.append_assoc]
      exact ih (written ++ chunk)

theorem RuleResult.lines_eq (result : RuleResult) :
    result.lines .plain = result.bodies.map (· ++ [0x0A]) := by
  unfold RuleResult.lines RuleResult.bodies
  split
  · rfl
  · rw [List.map_map]
    rfl

theorem Report.text_eq (report : Report) :
    report.text = report.bodies.flatMap (· ++ [0x0A]) := by
  rw [Report.text, Sink.writeAll_written, List.nil_append, Report.lines, Report.bodies,
    ← List.flatMap_id', List.flatMap_assoc, List.flatMap_assoc]
  refine List.flatMap_congr ?_
  intro result _
  rw [result.lines_eq, List.flatMap_map]

theorem RuleResult.tags_lead (result : RuleResult) :
    List.Forall₂ (· <+: ·) result.tags result.bodies := by
  unfold RuleResult.tags RuleResult.bodies
  split
  · exact .cons (List.prefix_append _ _) .nil
  · rw [List.forall₂_map_left_iff, List.forall₂_map_right_iff, List.forall₂_same]
    intro violation _
    simp only [RuleResult.violationBody, List.append_assoc]
    exact List.prefix_append _ _

theorem Report.tags_lead (report : Report) :
    List.Forall₂ (· <+: ·) report.tags report.bodies := by
  unfold Report.tags Report.bodies
  induction report.results with
  | nil => exact .nil
  | cons result results ih =>
      rw [List.flatMap_cons, List.flatMap_cons]
      exact List.rel_append result.tags_lead ih

theorem Report.length_tags (report : Report) :
    report.tags.length = report.results.countP RuleResult.passed + report.violationCount := by
  unfold Report.tags Report.violationCount
  induction report.results with
  | nil => rfl
  | cons result results ih =>
      rw [List.flatMap_cons, List.flatMap_cons, List.length_append, List.length_append,
        List.countP_cons, ih]
      have here : result.tags.length =
          (if result.passed = true then 1 else 0) + result.violations.length := by
        unfold RuleResult.tags
        split
        · rename_i passes
          rw [List.isEmpty_iff.mp passes]
          rfl
        · rw [List.length_map, Nat.zero_add]
      omega

theorem RuleResult.bodies_oneLine_iff {result : RuleResult} (named : OneLine result.file) :
    (∀ body ∈ result.bodies, OneLine body) ↔
      ∀ violation ∈ result.violations, violation.OnOneLine := by
  have heading : OneLine result.heading := by
    simp only [RuleResult.heading, oneLine_append, named, oneLine_ruleName]
    decide
  unfold RuleResult.bodies
  split
  · rename_i passes
    rw [List.isEmpty_iff.mp passes, List.forall_mem_singleton]
    refine ⟨fun _ => List.forall_mem_nil _, fun _ => ?_⟩
    exact oneLine_append.mpr ⟨by decide, heading⟩
  · rw [List.forall_mem_map]
    refine forall₂_congr fun violation _ => ?_
    simp only [RuleResult.violationBody, oneLine_append, heading, oneLine_faultKindName,
      Violation.OnOneLine]
    constructor
    · rintro ⟨⟨⟨⟨⟨⟨-, -⟩, method⟩, -⟩, -⟩, -⟩, message⟩
      exact ⟨method, message⟩
    · rintro ⟨method, message⟩
      exact ⟨⟨⟨⟨⟨⟨by decide, by decide⟩, method⟩, by decide⟩, trivial⟩, by decide⟩, message⟩

/-- A report whose files are on one line each is written with a line per record exactly when all
its violations are on one line. -/
theorem Report.linePerRecord_iff {report : Report}
    (named : ∀ result ∈ report.results, OneLine result.file) :
    report.LinePerRecord report.text ↔
      ∀ result ∈ report.results, ∀ violation ∈ result.violations, violation.OnOneLine := by
  have bodies : (∀ body ∈ report.bodies, OneLine body) ↔
      ∀ result ∈ report.results, ∀ violation ∈ result.violations, violation.OnOneLine := by
    rw [Report.bodies, List.forall_mem_flatMap]
    exact forall₂_congr fun result listed =>
      RuleResult.bodies_oneLine_iff (named result listed)
  rw [← bodies]
  constructor
  · -- The text has a line feed per record, which leaves none for the insides of the lines.
    rintro ⟨lines, inLines, tagged⟩
    refine oneLine_of_count ?_
    rw [← report.text_eq, inLines.count, ← tagged.length_eq, report.tags_lead.length_eq]
  · intro oneLine
    exact ⟨report.bodies, ⟨report.text_eq, oneLine⟩, report.tags_lead⟩

/-! ## Reports of runs -/

/-- The class that work on a file has come to, with the path of the file. -/
def Work.judgedClass? (work : Work) : Option (Bytes × ClassFile) :=
  match work.phase with
  | .finished (.ok file) => some (work.path, file)
  | _ => none

/-- The classes of a workshop that have been judged, whether opened or found in the cache. -/
def Workshop.judgedClasses (workshop : Workshop) : List (Bytes × ClassFile) :=
  workshop.works.filterMap Work.judgedClass?

theorem Work.results_add {rules : List Rule} {work : Work} {entry : Bytes × FileOutcome}
    (report : Report) (outcome : work.outcome? rules = some entry) :
    (report.add entry.1 entry.2).results =
      report.results ++ resultsOf rules work.judgedClass?.toList := by
  obtain ⟨path, phase⟩ := work
  cases phase with
  | finished decoded =>
      cases outcome
      cases decoded with
      | ok file => exact congrArg _ (List.append_nil _).symm
      | error error => exact (List.append_nil _).symm
  | waiting | missed | opened => cases outcome

theorem Work.results_of_outcomes {rules : List Rule} {works : List Work}
    {entries : List (Bytes × FileOutcome)}
    (collected : works.mapM (Work.outcome? rules) = some entries) (report : Report) :
    (entries.foldl (fun report entry => report.add entry.1 entry.2) report).results =
      report.results ++ resultsOf rules (works.filterMap Work.judgedClass?) := by
  induction works generalizing entries report with
  | nil =>
      cases collected
      exact (List.append_nil _).symm
  | cons work rest ih =>
      rw [List.mapM_cons] at collected
      obtain ⟨entry, outcome, continued⟩ := Option.bind_eq_some_iff.mp collected
      obtain ⟨others, gathered, same⟩ := Option.bind_eq_some_iff.mp continued
      cases same
      rw [List.foldl_cons, ih gathered, Work.results_add report outcome, List.append_assoc]
      refine congrArg (report.results ++ ·) ?_
      cases judged : work.judgedClass? with
      | none => rw [List.filterMap_cons_none judged]; rfl
      | some found =>
          rw [List.filterMap_cons_some judged, ← List.singleton_append]
          exact List.flatMap_append.symm

theorem Workshop.results_of_report {rules : List Rule} {workshop : Workshop} {report : Report}
    (finished : workshop.report? rules = some report) :
    report.results = resultsOf rules workshop.judgedClasses := by
  obtain ⟨entries, collected, rfl⟩ := Option.map_eq_some_iff.mp finished
  exact (Work.results_of_outcomes collected .empty).trans (List.nil_append _)

theorem Workshop.Moves.paths {options : OpenOptions} {disk : Disk} {workshop next : Workshop}
    (moved : workshop.Moves options disk next) :
    next.works.map Work.path = workshop.works.map Work.path := by
  cases moved with
  | work split advance =>
      rw [split, List.map_append, List.map_append]
      rfl

theorem Workshop.Reaches.paths {options : OpenOptions} {disk : Disk} {workers : Int}
    {cache? : Option (Cache ClassFile)} {files : List Bytes} {workshop : Workshop}
    (reached : Workshop.Reaches options disk workers (.start cache? files) workshop) :
    workshop.works.map Work.path = files := by
  obtain ⟨schedule, followed, rfl⟩ := reached
  exact Workshop.kept_by_schedule (fun before after kept moved => moved.paths.trans kept)
    (Workshop.paths_start cache? files) followed

theorem Workshop.mem_paths_of_judged {workshop : Workshop} {entry : Bytes × ClassFile}
    (judged : entry ∈ workshop.judgedClasses) : entry.1 ∈ workshop.works.map Work.path := by
  obtain ⟨work, listed, found⟩ := List.mem_filterMap.mp judged
  refine List.mem_map.mpr ⟨work, listed, ?_⟩
  obtain ⟨path, phase⟩ := work
  cases phase with
  | finished decoded =>
      cases decoded with
      | ok file => cases found; rfl
      | error error => cases found
  | waiting | missed | opened => cases found

theorem Rule.violations_onOneLine_iff (rule : Rule) (file : ClassFile) :
    (∀ violation ∈ rule.violations file, violation.OnOneLine) ↔
      ∀ method ∈ file.methods, rule.violation? file method ≠ none →
        rule.ShowsOneLine file method := by
  by_cases listed : rule.kind ∈ RuleKind.catalog
  · rw [Rule.violations_eq_filterMap listed]
    constructor
    · intro onLine method present reported
      obtain ⟨violation, found⟩ := Option.ne_none_iff_exists'.mp reported
      exact (Rule.reports_of_violation? found).onOneLine_iff.mp
        (onLine violation (List.mem_filterMap.mpr ⟨method, present, found⟩))
    · intro shows violation member
      obtain ⟨method, present, found⟩ := List.mem_filterMap.mp member
      refine (Rule.reports_of_violation? found).onOneLine_iff.mpr (shows method present ?_)
      rw [found]
      exact Option.some_ne_none violation
  · -- A rule outside the catalog has one violation, which names the rule and no method.
    obtain ⟨kind, param⟩ := rule
    cases kind with
    | noBinaryInNames | tooManyArguments | checkNoVoid =>
        exact absurd (by simp [RuleKind.catalog]) listed
    | unknown number =>
        refine ⟨fun _ method _ reported => absurd rfl reported, fun _ => ?_⟩
        refine List.forall_mem_singleton.mpr ⟨(by decide : OneLine noMethodName), ?_⟩
        exact oneLine_append.mpr ⟨by decide, oneLine_ruleKey _⟩

/-- The sequential run ends in the report of one of the schedules. -/
theorem Runner.reaches_of_runInputs {runner next : Runner} {disk : Disk} {inputs : List Bytes}
    {rules : List Rule} {record : RunRecord} (workers : Int)
    (ran : runner.runInputs disk false inputs rules = (.ok record, next)) :
    ∃ files workshop, disk.walk inputs = .ok files ∧
      Workshop.Reaches runner.options disk workers (.start runner.cache? files) workshop ∧
      workshop.report? rules = some record.report := by
  cases walked : disk.walk inputs with
  | error error =>
      rw [Runner.runInputs, walked] at ran
      cases ran
  | ok files =>
      cases Disk.expand_of_walk walked
      obtain ⟨works, opened, judged, reached⟩ := Workshop.reaches_judged runner disk workers rules
        (disk.expand inputs) [] (List.forall_mem_nil _)
      refine ⟨_, _, rfl, reached, ?_⟩
      rw [Runner.runInputs, walked] at ran
      cases ran
      exact congrArg (Option.map Report.ofOutcomes) judged

/-- The report of a run over files with names on one line has a line per record exactly when every
method that violates a rule has a name on one line and, where the rule against void methods shows
its descriptor, a descriptor on one line. So it is whatever the workers and the cache do, the
sequential run included. -/
theorem report_line_per_record_iff {runner : Runner} {disk : Disk} {inputs files : List Bytes}
    {rules : List Rule} {workers : Int} {workshop : Workshop} {report : Report}
    (walked : disk.walk inputs = .ok files) (named : ∀ path ∈ files, OneLine path)
    (reached : Workshop.Reaches runner.options disk workers (.start runner.cache? files) workshop)
    (finished : workshop.report? rules = some report) :
    report.tags.length = report.results.countP RuleResult.passed + report.violationCount ∧
    (report.LinePerRecord report.text ↔
      ∀ entry ∈ workshop.judgedClasses, ∀ rule ∈ rules, ∀ method ∈ entry.2.methods,
        rule.violation? entry.2 method ≠ none → rule.ShowsOneLine entry.2 method) ∧
    ∀ record next, runner.runInputs disk false inputs rules = (.ok record, next) →
      ∃ sequential, Workshop.Reaches runner.options disk 1 (.start runner.cache? files) sequential ∧
        sequential.report? rules = some record.report := by
  have results := Workshop.results_of_report finished
  have files' : ∀ result ∈ report.results, OneLine result.file := by
    intro result listed
    rw [results] at listed
    obtain ⟨entry, judged, evaluated⟩ := List.mem_flatMap.mp listed
    obtain ⟨rule, -, rfl⟩ := List.mem_map.mp evaluated
    exact named entry.1 (reached.paths ▸ Workshop.mem_paths_of_judged judged)
  refine ⟨report.length_tags, ?_, ?_⟩
  · rw [Report.linePerRecord_iff files', results, resultsOf, List.forall_mem_flatMap]
    refine forall₂_congr fun entry _ => ?_
    rw [List.forall_mem_map]
    exact forall₂_congr fun rule _ => rule.violations_onOneLine_iff entry.2
  · intro record next ran
    obtain ⟨others, sequential, again, reached, finished⟩ := Runner.reaches_of_runInputs 1 ran
    cases walked.symm.trans again
    exact ⟨sequential, reached, finished⟩

theorem report_line_per_record_interleaved :
    linkedTree.walk ["a", "b", "c"] = .ok ["a", "b", "c"] ∧
      Workshop.Reaches {} linkedTree 2
        (.start (Runner.new {} 1).cache? ["a", "b", "c"])
        (linkedWork.runSchedule {} linkedTree interleaving) ∧
      ∃ report, (linkedWork.runSchedule {} linkedTree interleaving).report?
          [⟨.checkNoVoid, 0⟩] = some report ∧
        report.violationCount = 2 ∧ report.LinePerRecord report.text := by
  have walked : linkedTree.walk ["a", "b", "c"] = .ok ["a", "b", "c"] := by decide +kernel
  have reached : Workshop.Reaches {} linkedTree 2
      (.start (Runner.new {} 1).cache? ["a", "b", "c"])
      (linkedWork.runSchedule {} linkedTree interleaving) :=
    ⟨interleaving, by decide +kernel, rfl⟩
  have counted : ((linkedWork.runSchedule {} linkedTree interleaving).report?
      [⟨.checkNoVoid, 0⟩]).map Report.violationCount = some 2 := by decide +kernel
  obtain ⟨report, finished, violations⟩ := Option.map_eq_some_iff.mp counted
  have unnamed : (linkedWork.runSchedule {} linkedTree interleaving).judgedClasses.all
      (fun entry => entry.2.methods.all fun method =>
        (entry.2.pool.utf8 method.name).toOption.isNone) = true := by decide +kernel
  have named : ∀ path ∈ (["a", "b", "c"] : List Bytes), OneLine path := by decide
  obtain ⟨-, lines, -⟩ :=
    @report_line_per_record_iff (.new {} 1) _ _ _ _ _ _ _ walked named reached finished
  refine ⟨walked, reached, report, finished, violations, lines.mpr ?_⟩
  intro entry judged rule _ method present _ name resolved
  have missing := List.all_eq_true.mp (List.all_eq_true.mp unnamed entry judged) method present
  rw [resolved] at missing
  cases missing

/-- A class with a void method whose name holds a line feed. -/
def brokenLineClass : RawClass :=
  { minor := 0, major := 52, poolCount := 3, constants := [.utf8 "a\nb", .utf8 "()V"],
    access := 0x0021, thisClass := 0, superClass := 0, interfaces := [], fields := [],
    methods := [⟨1, 1, 2, []⟩], attributes := [] }

def brokenLineTree : Disk := ⟨.directory [("A.class", .file brokenLineClass.encode)], []⟩

/-- The report on that class: one violation. -/
def brokenLineReport : Report :=
  ⟨1, [⟨"A.class", ⟨.checkNoVoid, 0⟩, [⟨"a\nb", "method a\nb()V returns void", .ruleCheck⟩]⟩], []⟩

/-- The violation by a method with a line feed in its name takes three lines, of which two start
without a tag. -/
theorem line_feed_in_name_breaks_line :
    ((Runner.new {} 256).runInputs brokenLineTree false ["A.class"]
      [⟨.checkNoVoid, 0⟩]).1.map RunRecord.report = .ok brokenLineReport ∧
    brokenLineReport.results.countP RuleResult.passed + brokenLineReport.violationCount = 1 ∧
    brokenLineReport.text =
      "[FAIL] (file: A.class), Rule: No Void Method Allowed, (method: a\n" ++
        ("b) - error: Rule Check Failed, trace: method a\n" ++ "b()V returns void\n") ∧
    ¬ brokenLineReport.LinePerRecord brokenLineReport.text := by
  refine ⟨by decide +kernel, by decide, by decide, ?_⟩
  rintro ⟨lines, inLines, tagged⟩
  have feeds : brokenLineReport.text.count 0x0A = 3 := by decide
  have records : brokenLineReport.tags.length = 1 := by decide
  rw [inLines.count, ← tagged.length_eq, records] at feeds
  cases feeds

end ClassAudit
