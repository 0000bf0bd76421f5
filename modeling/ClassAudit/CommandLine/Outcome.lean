import ClassAudit.CommandLine.Flag
import ClassAudit.FileTree.Change
import ClassAudit.Log
import ClassAudit.Runner.Basic
import ClassAudit.Setting.Load

/-!
# Outcomes of commands

What a command leaves behind: its verdict, its output, its log, and the file tree. A
command that has reported its findings may fail without a message of its own.
-/

set_option autoImplicit false

namespace ClassAudit

/-- Why a command does not succeed. -/
inductive CommandError where
  | reported
  | flag (error : FlagError)
  | tooFewArguments (received : Nat)
  | unexpectedArgument (argument command : Bytes)
  | missingConfig
  | noInputs
  | config (path : Bytes) (error : LoadError)
  | run (error : RunError)
  | unwrittenGraph (reason : Fault)
  | unwrittenReferences (path : Bytes) (reason : Fault)
  deriving DecidableEq, Repr

namespace CommandError

/-- The message of a command that does not succeed, if it has one. -/
def message? : CommandError → Option Bytes
  | .reported => none
  | .flag error => some error.text
  | .tooFewArguments received =>
      some ("requires at least 1 arg(s), only received " ++ decimal received)
  | .unexpectedArgument argument command =>
      some ("unknown command " ++ quoted argument ++ " for " ++ quoted command)
  | .missingConfig => some "missing config file argument"
  | .noInputs => some "no class files given"
  | .config path error =>
      let fault := error.toFault
      some (if fault.has .noRulesSelected then (Fault.context path fault).message
        else fault.message)
  | .run error => some error.toFault.message
  | .unwrittenGraph reason => some (Fault.context "graph" reason).message
  | .unwrittenReferences path reason =>
      some (Fault.context ("output: create " ++ path) reason).message

end CommandError

/-- What a command leaves behind. -/
structure Outcome where
  verdict : Except CommandError Unit
  output : Bytes := []
  log : List LogEntry := []
  disk : Disk

/-- The outcome of a command that stops before it does anything. -/
def Outcome.stopped (disk : Disk) (error : CommandError) : Outcome :=
  { verdict := .error error, disk }

end ClassAudit
