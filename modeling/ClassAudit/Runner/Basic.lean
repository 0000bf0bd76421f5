import ClassAudit.ClassFile.Opening
import ClassAudit.FileTree.Expansion
import ClassAudit.Log
import ClassAudit.Report.Basic
import ClassAudit.Runner.Cache

/-!
# Runs

A run decodes the files that its inputs stand for and judges each by every rule. Decoded
classes are cached by their canonical path, and the cache outlives the run. A file that
does not decode is reported and changes nothing about the others.
-/

set_option autoImplicit false

namespace ClassAudit

/-- What stays the same over all runs, and the classes decoded so far. Without a cache
every file is opened anew. -/
structure Runner where
  options : OpenOptions := {}
  cache? : Option (Cache ClassFile)

/-- The cache capacity when none is asked for. -/
def defaultCapacity : Nat := 256

/-- A runner with a cache of the given capacity; zero or less stands for no cache. -/
def Runner.new (options : OpenOptions) (capacity : Int) : Runner :=
  { options, cache? := if 0 < capacity then some { capacity := capacity.toNat } else none }

namespace Runner

/-- The class at a canonical path, and the cache afterwards. Only what decodes enters the
cache. -/
def decodeKey (options : OpenOptions) (disk : Disk) (cache : Cache ClassFile) (key : Bytes) :
    Except OpenError ClassFile × Cache ClassFile :=
  match cache.get? key with
  | some file => (.ok file, cache.refresh key)
  | none =>
      match disk.openClass options key with
      | .ok file => (.ok file, cache.insert key file)
      | .error error => (.error error, cache)

/-- Decodes the class file at a path, and the runner afterwards. -/
def decode (runner : Runner) (disk : Disk) (path : Bytes) :
    Except OpenError ClassFile × Runner :=
  match runner.cache? with
  | none => (disk.openClass runner.options path, runner)
  | some cache =>
      match disk.canonicalPath path with
      | .error error => (.error error, runner)
      | .ok key =>
          let (outcome, cache) := decodeKey runner.options disk cache key
          (outcome, { runner with cache? := some cache })

end Runner

/-! ## Judging files -/

/-- The log entry of an input that is left out. -/
def skippedEntry (path : Bytes) (fault : Fault) : LogEntry :=
  ⟨.warn, "skipping input", [("file", path), ("kind", fault.kind.name), ("err", fault.message)]⟩

/-- The log entry of a diagnostic. -/
def diagnosticEntry (path : Bytes) (diagnostic : Diagnostic) : LogEntry :=
  ⟨.debug, "decode diagnostic", [("file", path), ("diag", diagnostic.text)]⟩

/-- The log entry of a result. -/
def evaluationEntry (path : Bytes) (result : RuleResult) : LogEntry :=
  ⟨.debug, "rule evaluated",
    [("file", path), ("rule", result.rule.kind.key),
      ("violations", decimal result.violations.length)]⟩

/-- What came of one file: a result per rule, or the fault of a file that did not
decode. -/
inductive FileOutcome where
  | judged (diagnostics : List Diagnostic) (results : List RuleResult)
  | failed (error : OpenError)
  deriving DecidableEq, Repr

/-- Judges what decoding a file gave. -/
def FileOutcome.of (rules : List Rule) (path : Bytes) :
    Except OpenError ClassFile → FileOutcome
  | .ok file => .judged file.diagnostics (rules.map (evaluate path file))
  | .error error => .failed error

/-- The log entries of a file. -/
def FileOutcome.log (path : Bytes) : FileOutcome → List LogEntry
  | .judged diagnostics results =>
      diagnostics.map (diagnosticEntry path) ++ results.map (evaluationEntry path)
  | .failed error => [skippedEntry path error.toFault]

/-- A report with one more file. -/
def Report.add (report : Report) (path : Bytes) : FileOutcome → Report
  | .judged _ results =>
      { report with files := report.files + 1, results := report.results ++ results }
  | .failed error =>
      { report with failures := report.failures ++ [⟨path, error.toFault⟩] }

/-- The report of files and what came of them, in order. -/
def Report.ofOutcomes (outcomes : List (Bytes × FileOutcome)) : Report :=
  outcomes.foldl (fun report (path, outcome) => report.add path outcome) .empty

/-! ## Whole runs -/

/-- Why a run has no report. -/
inductive RunError where
  | canceled
  | unwalked (error : WalkError)
  deriving DecidableEq, Repr

/-- The chain of a run without a report. -/
def RunError.toFault : RunError → Fault
  | .canceled => .cause .canceled
  | .unwalked error => error.toFault

/-- A finished run: its report and its log. -/
structure RunRecord where
  report : Report
  log : List LogEntry
  deriving DecidableEq, Repr

namespace Runner

/-- Judges files one after the other. -/
def judgeAll (disk : Disk) (rules : List Rule) :
    Runner → List Bytes → List (Bytes × FileOutcome) × Runner
  | runner, [] => ([], runner)
  | runner, path :: rest =>
      let (decoded, runner) := runner.decode disk path
      let (outcomes, runner) := judgeAll disk rules runner rest
      ((path, .of rules path decoded) :: outcomes, runner)

/-- Runs the rules over the files that the inputs stand for. A run that was canceled
before it began stops at its first file. -/
def run (runner : Runner) (disk : Disk) (canceled : Bool) (paths : List Bytes)
    (rules : List Rule) : Except RunError RunRecord × Runner :=
  let files := disk.expand paths
  if canceled && !files.isEmpty then (.error .canceled, runner)
  else
    let (outcomes, runner) := runner.judgeAll disk rules files
    (.ok
      { report := .ofOutcomes outcomes,
        log := outcomes.flatMap fun (path, outcome) => outcome.log path }, runner)

/-- Runs the rules over inputs. An input that cannot be walked stops the run before it
opens any file. -/
def runInputs (runner : Runner) (disk : Disk) (canceled : Bool) (paths : List Bytes)
    (rules : List Rule) : Except RunError RunRecord × Runner :=
  match disk.walk paths with
  | .error error => (.error (.unwalked error), runner)
  | .ok _ => runner.run disk canceled paths rules

end Runner

/-- The report of a run without a cache: each file is opened on its own. -/
def plainReport (options : OpenOptions) (disk : Disk) (paths : List Bytes) (rules : List Rule) :
    Report :=
  .ofOutcomes ((disk.expand paths).map fun path =>
    (path, .of rules path (disk.openClass options path)))

end ClassAudit
