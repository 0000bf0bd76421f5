import ClassAudit.CommandLine.Outcome

/-!
# Linting

Loads the rules of a configuration and runs them over the inputs. A configuration without
rules stops the command before it looks at any input.
-/

set_option autoImplicit false

namespace ClassAudit

/-- The decode options of a command. -/
def openOptions (strict : Bool) : OpenOptions :=
  { mode := if strict then .strict else .bestEffort }

/-- The runner of a command. -/
def commandRunner (strict : Bool) : Runner := .new (openOptions strict) defaultCapacity

/-- What is asked of a lint command. An empty configuration path leaves the configuration
to the first argument. -/
structure LintRequest where
  config : Bytes
  arguments : List Bytes
  workers : Int
  json : Bool
  strict : Bool
  style : TagStyle
  deriving DecidableEq, Repr

/-- The configuration and the inputs of a lint command. -/
def LintRequest.target (request : LintRequest) : Except CommandError (Bytes × List Bytes) :=
  match request.config, request.arguments with
  | [], [] => .error .missingConfig
  | [], [_] => .error .noInputs
  | [], config :: inputs => .ok (config, inputs)
  | _, [] => .error .noInputs
  | config, inputs => .ok (config, inputs)

/-- What a lint command did: its verdict, its output and its log. -/
structure LintRecord where
  verdict : Except CommandError Unit
  output : Bytes := []
  log : List LogEntry := []

/-- The log entry of an active rule. -/
def enabledEntry (rule : Rule) : LogEntry :=
  ⟨.debug, "rule enabled", [("rule", rule.kind.key), ("param", decimal rule.param.toNat)]⟩

/-- The log entry at the end of a run. -/
def finishedEntry (report : Report) : LogEntry :=
  ⟨.debug, "lint finished",
    [("files", signedDecimal report.files), ("results", decimal report.results.length),
      ("violations", decimal report.violationCount),
      ("failures", decimal report.failures.length)]⟩

/-- A report as it is printed. -/
def Report.printed (json : Bool) (style : TagStyle) (report : Report) : Bytes :=
  if json then report.toJson.document else (report.lines style).flatten

/-- The verdict on a report. -/
def Report.verdict (report : Report) : Except CommandError Unit :=
  if report.clean then .ok () else .error .reported

/-- Runs rules over inputs and prints the report. -/
def lintInputs (disk : Disk) (request : LintRequest) (inputs : List Bytes) (rules : List Rule) :
    LintRecord :=
  let enabled := rules.map enabledEntry
  match ((commandRunner request.strict).runInputs disk false inputs rules).1 with
  | .error error => { verdict := .error (.run error), log := enabled }
  | .ok record =>
      { verdict := record.report.verdict,
        output := record.report.printed request.json request.style,
        log := enabled ++ record.log ++ [finishedEntry record.report] }

/-- Runs a lint command. The worker count changes nothing about its outcome. -/
def lint (disk : Disk) (request : LintRequest) : LintRecord :=
  match request.target with
  | .error error => { verdict := .error error }
  | .ok (config, inputs) =>
      match disk.loadRules config with
      | .error error => { verdict := .error (.config config error) }
      | .ok rules => lintInputs disk request inputs rules

end ClassAudit
