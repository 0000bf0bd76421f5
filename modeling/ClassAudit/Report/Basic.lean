import ClassAudit.Json
import ClassAudit.Rule.Evaluation

/-!
# Reports

The outcome of a run: one result per decoded file and rule, and one failure per file
that did not decode. Reports are written as lines or as a JSON document.
-/

set_option autoImplicit false

namespace ClassAudit

/-- A file that could not be read or decoded. -/
structure FileFailure where
  file : Bytes
  fault : Fault
  deriving DecidableEq, Repr

/-- The outcome of a run. `files` counts the decoded files. -/
structure Report where
  files : Int
  results : List RuleResult
  failures : List FileFailure
  deriving DecidableEq, Repr

namespace Report

/-- The report of a run that has seen no file. -/
def empty : Report := ⟨0, [], []⟩

/-- How many violations the results hold. -/
def violationCount (report : Report) : Nat :=
  (report.results.flatMap fun result => result.violations).length

/-- A report is clean when no file failed and every result passed. -/
def clean (report : Report) : Bool :=
  report.failures.isEmpty && report.results.all RuleResult.passed

end Report

/-! ## Lines -/

/-- How the tag at the start of a line is shown. -/
inductive TagStyle where
  | plain
  | coloured
  deriving DecidableEq, Repr

/-- The tag of a passing line. -/
def TagStyle.pass : TagStyle → Bytes
  | .plain => "[OK]"
  | .coloured => "\x1b[92m[OK]\x1b[0m"

/-- The tag of a failing line. -/
def TagStyle.fail : TagStyle → Bytes
  | .plain => "[FAIL]"
  | .coloured => "\x1b[1;91m[FAIL]\x1b[0m"

/-- The part of a line that names file and rule. -/
def RuleResult.heading (result : RuleResult) : Bytes :=
  " (file: " ++ result.file ++ "), Rule: " ++ result.rule.kind.name

/-- The line of a violation. -/
def RuleResult.violationLine (style : TagStyle) (result : RuleResult) (violation : Violation) :
    Bytes :=
  style.fail ++ result.heading ++ ", (method: " ++ violation.method ++ ") - error: " ++
    violation.kind.name ++ ", trace: " ++ violation.message ++ "\n"

/-- The lines of a result: one when it passes, else one per violation. -/
def RuleResult.lines (style : TagStyle) (result : RuleResult) : List Bytes :=
  if result.passed then [style.pass ++ result.heading ++ "\n"]
  else result.violations.map (result.violationLine style)

/-- The lines of a report, in result order. -/
def Report.lines (style : TagStyle) (report : Report) : List Bytes :=
  report.results.flatMap (RuleResult.lines style)

/-! ## JSON -/

/-- The JSON form of a violation. -/
def Violation.toJson (violation : Violation) : Json :=
  .object [Json.field "method" (.string violation.method),
    Json.field "kind" (.string violation.kind.name),
    Json.field "message" (.string violation.message)]

/-- The JSON form of a result. A zero parameter and an empty violation list are left
out. -/
def RuleResult.toJson (result : RuleResult) : Json :=
  .object
    ([Json.field "file" (.string result.file), Json.field "rule" (.string result.rule.kind.key),
      Json.field "name" (.string result.rule.kind.name)] ++
      Json.fieldWhen (result.rule.param != 0) "param" (.number result.rule.param.toNat) ++
      [Json.field "ok" (.bool result.passed)] ++
      Json.fieldWhen (!result.violations.isEmpty) "violations"
        (.array (result.violations.map Violation.toJson)))

/-- The JSON form of a failure. -/
def FileFailure.toJson (failure : FileFailure) : Json :=
  .object [Json.field "file" (.string failure.file),
    Json.field "kind" (.string failure.fault.kind.name),
    Json.field "message" (.string failure.fault.message)]

/-- The JSON form of a report. An empty failure list is left out. -/
def Report.toJson (report : Report) : Json :=
  .object
    ([Json.field "ok" (.bool report.clean), Json.field "files" (.number report.files),
      Json.field "violations" (.number report.violationCount),
      Json.field "results" (.array (report.results.map RuleResult.toJson))] ++
      Json.fieldWhen (!report.failures.isEmpty) "failures"
        (.array (report.failures.map FileFailure.toJson)))

/-! ## Writing -/

/-- A place to write to. With an allowance it refuses every write after that many. -/
structure Sink where
  allowance? : Option Nat
  written : Bytes
  deriving DecidableEq, Repr

/-- Writes a chunk whole, or refuses it. -/
def Sink.write (sink : Sink) (chunk : Bytes) : Except Fault Sink :=
  match sink.allowance? with
  | none => .ok { sink with written := sink.written ++ chunk }
  | some 0 => .error (.plain "write refused")
  | some (allowance + 1) => .ok ⟨some allowance, sink.written ++ chunk⟩

/-- Writes chunks in order up to the first refusal. -/
def Sink.writeAll (sink : Sink) : List Bytes → Sink × Option Fault
  | [] => (sink, none)
  | chunk :: chunks =>
      match sink.write chunk with
      | .ok next => next.writeAll chunks
      | .error fault => (sink, some fault)

/-- Writes a JSON document in one piece. -/
def Sink.writeJson (sink : Sink) (value : Json) : Sink × Option Fault :=
  match sink.write value.document with
  | .ok next => (next, none)
  | .error fault => (sink, some (.context "output: encode" fault))

end ClassAudit
