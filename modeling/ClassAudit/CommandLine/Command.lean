import ClassAudit.CommandLine.Flag
import ClassAudit.Environment

/-!
# Commands

The commands of the program with their flags, and how the command is found among the
arguments before the flags of any command are read.
-/

set_option autoImplicit false

namespace ClassAudit

/-- A command. Linting is what the program does when no other command is named. -/
inductive Command where
  | lint
  | scan
  | rules
  | graph
  | help
  deriving DecidableEq, Repr

/-- The name of the program. -/
def programName : Bytes := "classlint"

namespace Command

/-- The commands that are selected by their name. -/
def selectable : List Command := [.scan, .rules, .graph, .help]

/-- The name of a command; linting goes by the name of the program. -/
def name : Command → Bytes
  | .lint => programName
  | .scan => "scan"
  | .rules => "rules"
  | .graph => "graph"
  | .help => "help"

/-- The command that a name selects. -/
def ofName? (name : Bytes) : Option Command := selectable.find? fun command => command.name == name

/-- The name of a command after the name of the program. -/
def path : Command → Bytes
  | .lint => programName
  | command => programName ++ " " ++ command.name

end Command

/-! ## Flags -/

/-- The variable that names the configuration. -/
def configVariable : Bytes := "CLASSLINT_CONFIG"

/-- The variable that holds the number of workers. -/
def workersVariable : Bytes := "CLASSLINT_WORKERS"

/-- The variable that turns colours off unless it is empty. -/
def noColourVariable : Bytes := "NO_COLOR"

/-- What the values of flags start from. -/
structure FlagDefaults where
  config : Bytes
  workers : Int
  deriving DecidableEq, Repr

/-- The defaults that an environment gives on a machine with a number of processors. -/
def FlagDefaults.ofEnvironment (environment : Environment) (processors : Nat) : FlagDefaults :=
  { config := environment.value configVariable,
    workers := (Numeral.readDecimal? (environment.value workersVariable)).getD processors }

namespace Command

/-- The flags of every command. -/
def sharedFlags : List Flag :=
  [{ name := "no-color", usage := "disable colored output", initial := .toggle false },
    { name := "strict",
      usage := "treat trailing data and invalid descriptors as decode failures",
      initial := .toggle false },
    { name := "verbose", letter? := some 0x76, usage := "log debug diagnostics",
      initial := .toggle false }]

/-- The flag that asks for the help page of a command. -/
def helpFlag (command : Command) : Flag :=
  { name := "help", letter? := some 0x68, usage := "help for " ++ command.name,
    initial := .toggle false }

/-- The flags of linting alone. -/
def lintFlags (defaults : FlagDefaults) : List Flag :=
  [{ name := "config", letter? := some 0x63,
     usage := "rule configuration file (env " ++ configVariable ++ ")",
     initial := .text defaults.config },
    { name := "json", usage := "print a JSON report instead of report lines",
      initial := .toggle false },
    { name := "workers", letter? := some 0x6A,
      usage := "files processed concurrently (env " ++ workersVariable ++ ")",
      initial := .integer defaults.workers }]

/-- The flags of a command alone, the help flag left out. -/
def ownFlags (defaults : FlagDefaults) : Command → List Flag
  | .lint => lintFlags defaults
  | .scan => [{ name := "json", usage := "output as JSON", initial := .toggle false }]
  | .graph =>
      [{ name := "classes", usage := "aggregate references per class",
         initial := .toggle false },
        { name := "max-nodes",
          usage := "limit class-level graph to the most connected classes (0 = all)",
          initial := .integer 0 },
        { name := "out", letter? := some 0x6F, usage := "DOT output file (default stdout)",
          initial := .text [] },
        { name := "refs", usage := "also write the resolved references as JSON",
          initial := .text [] },
        { name := "title", usage := "graph title", initial := .text "references" }]
  | .rules | .help => []

/-- All flags of a command. -/
def flags (defaults : FlagDefaults) (command : Command) : List Flag :=
  command.helpFlag :: (command.ownFlags defaults ++ sharedFlags)

/-! ## Selection -/

/-- The flags that are known while the command is sought: those of linting and the shared
ones. The help flag is not among them. -/
def selectionFlags : List Flag := lintFlags ⟨[], 0⟩ ++ sharedFlags

/-- Whether an argument is a flag that leaves its value to the next argument. A flag that
is not known counts as one. -/
def leavesValue (argument : Bytes) : Bool :=
  match argument with
  | 0x2D :: 0x2D :: name =>
      !name.contains equalsSign && !(Flag.named? selectionFlags name).any Flag.standsAlone
  | [0x2D, letter] =>
      letter != equalsSign && !(Flag.lettered? selectionFlags letter).any Flag.standsAlone
  | _ => false

/-- The first positional argument that can name a command. A flag's value is passed over,
but the search ends at a flag whose value would be the last argument. -/
def candidate? : List Bytes → Option Bytes
  | [] => none
  | argument :: rest =>
      if argument == endOfFlags then none
      else if leavesValue argument then
        match rest with
        | _ :: next :: others => candidate? (next :: others)
        | _ => none
      else if argument.isEmpty || argument.head? == some dash then candidate? rest
      else some argument

/-- The arguments without the first positional one that equals a name. -/
def withoutFirst (name : Bytes) : List Bytes → List Bytes
  | [] => []
  | argument :: rest =>
      if argument == endOfFlags then argument :: rest
      else if leavesValue argument then
        match rest with
        | value :: others => argument :: value :: withoutFirst name others
        | [] => [argument]
      else if argument == name then rest
      else argument :: withoutFirst name rest

/-- The command that the arguments select, and the arguments left to it. -/
def select (arguments : List Bytes) : Command × List Bytes :=
  match candidate? arguments with
  | none => (.lint, arguments)
  | some name =>
      match ofName? name with
      | some command => (command, withoutFirst name arguments)
      | none => (.lint, arguments)

end Command

end ClassAudit
