import ClassAudit.Proofs.CanonicalProperties
import ClassAudit.Proofs.DecodeProperties
import ClassAudit.Runner.Basic
import Mathlib.Data.List.Forall2

/-!
# Reports of runs

A file may be opened by its own path or by its canonical path. Both give the same class, or
faults that differ only in the path before them, and so reports that agree. The report
without a cache accounts for every file on its own.
-/

set_option autoImplicit false

namespace ClassAudit

/-! ## Faults of opening -/

theorem DecodeError.toFault_classified (error : DecodeError) :
    ∃ kind message inner, error.toFault = .classifiedBy kind message inner ∧ message ≠ [] := by
  cases error with
  | shortHeader size =>
      exact ⟨_, _, _, rfl, List.append_ne_nil_of_right_ne_nil _ (by decide)⟩
  | badMagic magic => exact ⟨_, _, _, rfl, List.append_ne_nil_of_left_ne_nil (by decide) _⟩
  | emptyPool => exact ⟨_, _, _, rfl, by decide⟩
  | truncated place offset reason =>
      refine ⟨_, _, _, rfl, List.append_ne_nil_of_left_ne_nil ?_ _⟩
      exact List.append_ne_nil_of_right_ne_nil _ (by decide)
  | unknownTag index offset tag =>
      refine ⟨_, _, _, rfl, List.append_ne_nil_of_left_ne_nil ?_ _⟩
      exact List.append_ne_nil_of_right_ne_nil _ (by decide)
  | trailingData count offset =>
      refine ⟨_, _, _, rfl, List.append_ne_nil_of_left_ne_nil ?_ _⟩
      exact List.append_ne_nil_of_right_ne_nil _ (by decide)
  | invalidDescriptor method offset reason =>
      refine ⟨_, _, _, rfl, List.append_ne_nil_of_left_ne_nil ?_ _⟩
      exact List.append_ne_nil_of_right_ne_nil _ (by decide)

/-- The path before a decode error stays out of its summary. -/
theorem OpenError.undecodable_summary (path : Bytes) (reason : DecodeError) :
    (OpenError.undecodable path reason).toFault.summary = reason.toFault.summary := by
  obtain ⟨kind, message, inner, shape, nonempty⟩ := reason.toFault_classified
  simp only [OpenError.toFault, shape, Fault.summary, Fault.classification?, nonempty, ↓reduceIte]

/-- Two failures of one file that differ at most in the path before the message: the canonical
path in one, the path of the file in the other. -/
structure FileFailure.Agrees (disk : Disk) (failure plain : FileFailure) : Prop where
  file : failure.file = plain.file
  kind : failure.fault.kind = plain.fault.kind
  has : ∀ cause, failure.fault.has cause = plain.fault.has cause
  summary : failure.fault.summary = plain.fault.summary
  message : failure.fault.message = plain.fault.message ∨
    ∃ key text, disk.canonicalPath plain.file = .ok key ∧
      failure.fault.message = key ++ ": " ++ text ∧
      plain.fault.message = plain.file ++ ": " ++ text

theorem FileFailure.Agrees.refl (disk : Disk) (failure : FileFailure) :
    failure.Agrees disk failure :=
  ⟨rfl, rfl, fun _ => rfl, rfl, .inl rfl⟩

theorem FileFailure.Agrees.undecodable {disk : Disk} {path key : Bytes} (reason : DecodeError)
    (canonical : disk.canonicalPath path = .ok key) :
    FileFailure.Agrees disk ⟨path, (OpenError.undecodable key reason).toFault⟩
      ⟨path, (OpenError.undecodable path reason).toFault⟩ where
  file := rfl
  kind := rfl
  has _ := rfl
  summary := by rw [OpenError.undecodable_summary, OpenError.undecodable_summary]
  message := .inr ⟨key, reason.toFault.message, canonical, rfl, rfl⟩

/-! ## Reports that agree -/

/-- Two reports that differ at most in the paths before their failures. -/
structure Report.Agrees (disk : Disk) (report plain : Report) : Prop where
  files : report.files = plain.files
  results : report.results = plain.results
  failures : List.Forall₂ (FileFailure.Agrees disk) report.failures plain.failures

/-- What decoding a path may give on a disk: what opening it gives, or the same found by the
canonical path. -/
def Disk.Decodes (options : OpenOptions) (disk : Disk) (path : Bytes)
    (decoded : Except OpenError ClassFile) : Prop :=
  decoded = disk.openClass options path ∨
    ∃ key, disk.canonicalPath path = .ok key ∧
      OpensAlike key path decoded (disk.openClass options path)

theorem Report.Agrees.add {options : OpenOptions} {disk : Disk} {report plain : Report}
    {path : Bytes} {decoded : Except OpenError ClassFile} (rules : List Rule)
    (agrees : report.Agrees disk plain) (decodes : disk.Decodes options path decoded) :
    (report.add path (.of rules path decoded)).Agrees disk
      (plain.add path (.of rules path (disk.openClass options path))) := by
  have same : ∀ outcome, (report.add path outcome).Agrees disk (plain.add path outcome) := by
    intro outcome
    cases outcome with
    | judged diagnostics results =>
        exact ⟨congrArg (· + 1) agrees.files, congrArg (· ++ results) agrees.results,
          agrees.failures⟩
    | failed error =>
        exact ⟨agrees.files, agrees.results,
          List.rel_append agrees.failures (.cons (.refl disk _) .nil)⟩
  rcases decodes with equal | ⟨key, canonical, equal | ⟨reason, byKey, byPath⟩⟩
  · rw [equal]
    exact same _
  · rw [equal]
    exact same _
  · rw [byKey, byPath]
    exact ⟨agrees.files, agrees.results,
      List.rel_append agrees.failures (.cons (.undecodable reason canonical) .nil)⟩

/-! ## Reports without a cache -/

namespace Disk

/-- The classes among files, each with its file. -/
def classesOf (options : OpenOptions) (disk : Disk) (files : List Bytes) :
    List (Bytes × ClassFile) :=
  files.filterMap fun path => (disk.openClass options path).toOption.map fun file => (path, file)

/-- The failure of a file that cannot be opened. -/
def failureAt? (options : OpenOptions) (disk : Disk) (path : Bytes) : Option FileFailure :=
  match disk.openClass options path with
  | .ok _ => none
  | .error error => some ⟨path, error.toFault⟩

variable {options : OpenOptions} {disk : Disk} {path : Bytes}

theorem classesOf_cons_ok {file : ClassFile} (files : List Bytes)
    (opened : disk.openClass options path = .ok file) :
    disk.classesOf options (path :: files) = (path, file) :: disk.classesOf options files :=
  List.filterMap_cons_some (by rw [opened]; rfl)

theorem classesOf_cons_error {error : OpenError} (files : List Bytes)
    (refused : disk.openClass options path = .error error) :
    disk.classesOf options (path :: files) = disk.classesOf options files :=
  List.filterMap_cons_none (by rw [refused]; rfl)

theorem failureAt?_of_ok {file : ClassFile} (opened : disk.openClass options path = .ok file) :
    disk.failureAt? options path = none := by
  rw [failureAt?, opened]

theorem failureAt?_of_error {error : OpenError}
    (refused : disk.openClass options path = .error error) :
    disk.failureAt? options path = some ⟨path, error.toFault⟩ := by
  rw [failureAt?, refused]

end Disk

/-- The results of judging classes one after the other. -/
def resultsOf (rules : List Rule) (classes : List (Bytes × ClassFile)) : List RuleResult :=
  classes.flatMap fun entry => rules.map (evaluate entry.1 entry.2)

theorem length_resultsOf (rules : List Rule) (classes : List (Bytes × ClassFile)) :
    (resultsOf rules classes).length = classes.length * rules.length := by
  induction classes with
  | nil => exact (Nat.zero_mul _).symm
  | cons entry rest ih =>
      rw [resultsOf, List.flatMap_cons, List.length_append, List.length_map, List.length_cons,
        Nat.succ_mul, Nat.add_comm]
      exact congrArg (· + rules.length) ih

/-- Every file adds its own results or its own failure to a report. -/
theorem Report.foldl_add_plain (options : OpenOptions) (disk : Disk) (rules : List Rule)
    (files : List Bytes) (report : Report) :
    files.foldl (fun report path =>
        report.add path (.of rules path (disk.openClass options path))) report =
      ⟨report.files + (disk.classesOf options files).length,
        report.results ++ resultsOf rules (disk.classesOf options files),
        report.failures ++ files.filterMap (disk.failureAt? options)⟩ := by
  induction files generalizing report with
  | nil => simp [Disk.classesOf, resultsOf]
  | cons path rest ih =>
      rw [List.foldl_cons, ih]
      cases opened : disk.openClass options path with
      | ok file =>
          rw [Disk.classesOf_cons_ok rest opened,
            List.filterMap_cons_none (Disk.failureAt?_of_ok opened)]
          simp only [FileOutcome.of, Report.add, resultsOf, List.flatMap_cons, List.length_cons,
            List.append_assoc, Report.mk.injEq, and_self, and_true]
          omega
      | error error =>
          rw [Disk.classesOf_cons_error rest opened,
            List.filterMap_cons_some (Disk.failureAt?_of_error opened)]
          simp only [FileOutcome.of, Report.add, List.append_assoc, List.singleton_append]

theorem plainReport_eq (options : OpenOptions) (disk : Disk) (paths : List Bytes)
    (rules : List Rule) :
    plainReport options disk paths rules =
      ⟨(disk.classesOf options (disk.expand paths)).length,
        resultsOf rules (disk.classesOf options (disk.expand paths)),
        (disk.expand paths).filterMap (disk.failureAt? options)⟩ := by
  rw [plainReport, Report.ofOutcomes, List.foldl_map]
  refine (Report.foldl_add_plain options disk rules (disk.expand paths) .empty).trans ?_
  simp only [Report.empty, Int.zero_add, List.nil_append]

/-- A file either opens or fails. -/
theorem Disk.length_classesOf_add (options : OpenOptions) (disk : Disk) (files : List Bytes) :
    (disk.classesOf options files).length + (files.filterMap (disk.failureAt? options)).length =
      files.length := by
  induction files with
  | nil => rfl
  | cons path rest ih =>
      cases opened : disk.openClass options path with
      | ok file =>
          rw [Disk.classesOf_cons_ok rest opened,
            List.filterMap_cons_none (Disk.failureAt?_of_ok opened), List.length_cons,
            List.length_cons]
          omega
      | error error =>
          rw [Disk.classesOf_cons_error rest opened,
            List.filterMap_cons_some (Disk.failureAt?_of_error opened), List.length_cons,
            List.length_cons]
          omega

theorem Disk.map_file_failureAt? (options : OpenOptions) (disk : Disk) (files : List Bytes) :
    (files.filterMap (disk.failureAt? options)).map FileFailure.file =
      files.filter fun path => (disk.openClass options path).toOption.isNone := by
  induction files with
  | nil => rfl
  | cons path rest ih =>
      cases opened : disk.openClass options path with
      | ok file =>
          rw [List.filterMap_cons_none (Disk.failureAt?_of_ok opened),
            List.filter_cons_of_neg (by rw [opened]; nofun), ih]
      | error error =>
          rw [List.filterMap_cons_some (Disk.failureAt?_of_error opened),
            List.filter_cons_of_pos (by rw [opened]; rfl), List.map_cons, ih]

/-- A file that cannot be opened adds its failure to a report and nothing else. -/
theorem plainReport_of_refused {options : OpenOptions} {disk : Disk} {paths others : List Bytes}
    {before after : List Bytes} {path : Bytes} {error : OpenError} (rules : List Rule)
    (expanded : disk.expand paths = before ++ path :: after)
    (without : disk.expand others = before ++ after)
    (refused : disk.openClass options path = .error error) :
    ∃ earlier later, (plainReport options disk others rules).failures = earlier ++ later ∧
      plainReport options disk paths rules =
        { plainReport options disk others rules with
          failures := earlier ++ ⟨path, error.toFault⟩ :: later } := by
  refine ⟨before.filterMap (disk.failureAt? options), after.filterMap (disk.failureAt? options),
    ?_, ?_⟩
  · rw [plainReport_eq, without, List.filterMap_append]
  · have classes : disk.classesOf options (before ++ path :: after) =
        disk.classesOf options (before ++ after) := by
      rw [Disk.classesOf, List.filterMap_append, Disk.classesOf, List.filterMap_append]
      exact congrArg _ (Disk.classesOf_cons_error after refused)
    rw [plainReport_eq, plainReport_eq, expanded, without, classes, List.filterMap_append,
      List.filterMap_cons_some (Disk.failureAt?_of_error refused)]

/-! ## Reports that account for their files -/

/-- A report of a run agrees with the report without a cache. It has one failure for every
expanded file that cannot be opened and one result per rule, in the order of the rules, for
every other file; a file that cannot be opened changes nothing else. -/
structure Report.Accounts (options : OpenOptions) (disk : Disk) (paths : List Bytes)
    (rules : List Rule) (report : Report) : Prop where
  agrees : report.Agrees disk (plainReport options disk paths rules)
  results : report.results = resultsOf rules (disk.classesOf options (disk.expand paths))
  failed : report.failures.map FileFailure.file =
    (disk.expand paths).filter fun path => (disk.openClass options path).toOption.isNone
  accounted : report.files + report.failures.length = (disk.expand paths).length
  judged : (report.results.length : Int) = report.files * rules.length
  isolated : ∀ others before path after error,
    disk.expand paths = before ++ path :: after → disk.expand others = before ++ after →
    disk.openClass options path = .error error →
    ∃ earlier later, (plainReport options disk others rules).failures = earlier ++ later ∧
      plainReport options disk paths rules =
        { plainReport options disk others rules with
          failures := earlier ++ ⟨path, error.toFault⟩ :: later }

theorem Report.Agrees.accounts {options : OpenOptions} {disk : Disk} {paths : List Bytes}
    {rules : List Rule} {report : Report}
    (agrees : report.Agrees disk (plainReport options disk paths rules)) :
    report.Accounts options disk paths rules := by
  have plain := plainReport_eq options disk paths rules
  have files : report.files = (disk.classesOf options (disk.expand paths)).length := by
    rw [agrees.files, plain]
  have results : report.results = resultsOf rules (disk.classesOf options (disk.expand paths)) := by
    rw [agrees.results, plain]
  have failures : report.failures.length =
      ((disk.expand paths).filterMap (disk.failureAt? options)).length := by
    rw [agrees.failures.length_eq, plain]
  have named : report.failures.map FileFailure.file =
      (plainReport options disk paths rules).failures.map FileFailure.file := by
    rw [← List.forall₂_eq_eq_eq, List.forall₂_map_left_iff, List.forall₂_map_right_iff]
    exact agrees.failures.imp fun _ _ same => same.file
  refine ⟨agrees, results, ?_, ?_, ?_, ?_⟩
  · rw [named, plain, disk.map_file_failureAt? options]
  · have whole := disk.length_classesOf_add options (disk.expand paths)
    rw [files, failures]
    exact_mod_cast whole
  · rw [results, files, length_resultsOf]
    exact Int.natCast_mul _ _
  · intro others before path after error expanded without refused
    exact plainReport_of_refused rules expanded without refused

end ClassAudit
