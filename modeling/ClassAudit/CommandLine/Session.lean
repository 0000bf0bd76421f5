import ClassAudit.CommandLine.Graph
import ClassAudit.CommandLine.Help

/-!
# Sessions

A session is one call of the program: from arguments, environment and file tree to exit
code, both outputs and the file tree afterwards.
-/

set_option autoImplicit false

namespace ClassAudit

/-- All that a call of the program depends on. -/
structure Invocation where
  arguments : List Bytes
  environment : Environment
  processors : Nat := 1
  terminal : Bool := false
  disk : Disk

/-- What a call of the program leaves behind. -/
structure SessionResult where
  code : Nat
  output : Bytes
  errors : Bytes
  disk : Disk

/-- The file of further variables in the working directory. -/
def variablesFile : Bytes := ".env"

/-- The call with the variables of the working directory's file added. Variables that are
set already stay, and a file that cannot be read adds nothing. -/
def Invocation.withVariablesFile (invocation : Invocation) : Invocation :=
  match invocation.disk.contents variablesFile with
  | .error _ => invocation
  | .ok text =>
      { invocation with
        environment := invocation.environment.withDefaults ((Environment.ofText? text).getD []) }

/-- How tags are shown: coloured only on a terminal where nothing speaks against it. -/
def Invocation.tagStyle (invocation : Invocation) (settings : FlagSettings) : TagStyle :=
  if settings.isOn "no-color" || !(invocation.environment.value noColourVariable).isEmpty ||
      !invocation.terminal then .plain
  else .coloured

/-- The defaults of a call's flags. -/
def Invocation.defaults (invocation : Invocation) : FlagDefaults :=
  .ofEnvironment invocation.environment invocation.processors

/-- The lint request of a call. -/
def Invocation.lintRequest (invocation : Invocation) (parsed : ParsedArguments) : LintRequest :=
  { config := parsed.settings.text "config", arguments := parsed.positionals,
    workers := parsed.settings.integer "workers", json := parsed.settings.isOn "json",
    strict := parsed.settings.isOn "strict", style := invocation.tagStyle parsed.settings }

/-- The graph request of arguments. -/
def GraphRequest.ofArguments (parsed : ParsedArguments) : GraphRequest :=
  { inputs := parsed.positionals, strict := parsed.settings.isOn "strict",
    title := parsed.settings.text "title", byClass := parsed.settings.isOn "classes",
    limit := parsed.settings.integer "max-nodes", drawingPath := parsed.settings.text "out",
    referencesPath := parsed.settings.text "refs" }

/-- Runs a command on the arguments left to it. -/
def Invocation.runCommand (invocation : Invocation) (parsed : ParsedArguments) :
    Command → Outcome
  | .lint =>
      let record := lint invocation.disk (invocation.lintRequest parsed)
      { verdict := record.verdict, output := record.output, log := record.log,
        disk := invocation.disk }
  | .scan =>
      if parsed.positionals.isEmpty then .stopped invocation.disk (.tooFewArguments 0)
      else
        scan invocation.disk (parsed.settings.isOn "strict") (parsed.settings.isOn "json")
          parsed.positionals
  | .graph =>
      if parsed.positionals.isEmpty then .stopped invocation.disk (.tooFewArguments 0)
      else graph invocation.disk (.ofArguments parsed)
  | .rules =>
      match parsed.positionals with
      | [] => { verdict := .ok (), output := catalogTable, disk := invocation.disk }
      | argument :: _ =>
          .stopped invocation.disk (.unexpectedArgument argument Command.rules.path)
  | .help =>
      { verdict := .ok (), disk := invocation.disk,
        output := (Command.select parsed.positionals).1.helpPage invocation.defaults }

/-- Makes a call, as the outcome of its command and whether debug entries are shown. A
call for help goes before all but a refused flag. -/
def Invocation.outcome (invocation : Invocation) : Outcome × Bool :=
  let (command, arguments) := Command.select invocation.arguments
  match parseArguments (command.flags invocation.defaults) arguments with
  | .error error => (.stopped invocation.disk (.flag error), false)
  | .ok parsed =>
      if parsed.settings.isOn "help" then
        ({ verdict := .ok (), output := command.helpPage invocation.defaults,
           disk := invocation.disk }, false)
      else (invocation.runCommand parsed command, parsed.settings.isOn "verbose")

/-! ## Paths of a call -/

/-- The paths that a call may read below, and those it may write. -/
structure CallPaths where
  read : List Bytes
  written : List Bytes
  deriving DecidableEq, Repr

/-- The paths of a call. A call whose flags are refused has none. -/
def Invocation.paths (invocation : Invocation) : CallPaths :=
  let (command, arguments) := Command.select invocation.arguments
  match parseArguments (command.flags invocation.defaults) arguments with
  | .error _ => ⟨[], []⟩
  | .ok parsed =>
      ⟨([parsed.settings.text "config"] ++ parsed.positionals).filter (!·.isEmpty),
        [parsed.settings.text "out", parsed.settings.text "refs"].filter (!·.isEmpty)⟩

/-! ## Results -/

/-- The lines on the error output after the log. -/
def errorText : Except CommandError Unit → Bytes
  | .ok () => []
  | .error error =>
      match error.message? with
      | some message => "error: " ++ message ++ "\n"
      | none => []

/-- The exit code of a verdict. -/
def exitCode : Except CommandError Unit → Nat
  | .ok () => 0
  | .error _ => 1

/-- Makes a call of the program. -/
def Invocation.run (invocation : Invocation) : SessionResult :=
  let (outcome, verbose) := invocation.outcome
  { code := exitCode outcome.verdict, output := outcome.output,
    errors := logText verbose outcome.log ++ errorText outcome.verdict, disk := outcome.disk }

end ClassAudit
