import ClassAudit.CommandLine.Command
import ClassAudit.CommandLine.Table

/-!
# Help pages

The help page of a command: what it does, how it is called, and its flags in the order of
their names. The page of the program itself also lists the commands.
-/

set_option autoImplicit false

namespace ClassAudit

namespace Flag

/-- The word for what a flag takes, after a space; a toggle takes nothing. -/
def valueWord (flag : Flag) : Bytes :=
  match flag.initial with
  | .toggle _ => []
  | .integer _ => " int"
  | .text _ => " string"

/-- The first column of a flag's line. Names stand below each other, with or without a
letter in front. -/
def heading (flag : Flag) : Bytes :=
  let indent : Bytes := if flag.letter?.isSome then "  " else "      "
  indent ++ flag.label ++ flag.valueWord

/-- The note on the value of a flag that is not given, unless that value is off, zero or
empty. -/
def defaultNote (flag : Flag) : Bytes :=
  match flag.initial with
  | .toggle on => if on then " (default true)" else []
  | .integer value => if value = 0 then [] else " (default " ++ signedDecimal value ++ ")"
  | .text value => if value.isEmpty then [] else " (default " ++ quoted value ++ ")"

end Flag

/-- The lines of flags in the order of their names. -/
def flagLines (flags : List Flag) : Bytes :=
  let sorted := flags.mergeSort fun left right => Bytes.le left.name right.name
  let width := widest (sorted.map Flag.heading)
  sorted.flatMap fun flag =>
    padTo (width + 3) flag.heading ++ flag.usage ++ flag.defaultNote ++ "\n"

namespace Command

/-- What a command is for, in one line. -/
def summary : Command → Bytes
  | .lint => "Lint compiled JVM class files against configurable method rules"
  | .scan => "Print the header and table sizes of class files"
  | .rules => "List the available rules and their configuration keys"
  | .graph => "Render the method references of class files as Graphviz DOT"
  | .help => "Help about any command"

/-- The opening lines of a help page. -/
def description : Command → List Bytes
  | .lint =>
      ["classlint decodes JVM class files and checks every method against the",
        "rules enabled in a TOML (or YAML) configuration:",
        "",
        "  no_binary_in_names = true   # readAndWrite, is_or_has",
        "  too_many_arguments = 4      # more than 4 parameters",
        "  check_no_void = true        # void methods other than <init>, <clinit>, main",
        "",
        "Directories are searched for *.class files. The exit code is 0 only when",
        "every rule passes on every input.",
        "",
        "A positional config file named like a subcommand (scan, rules, graph)",
        "runs that subcommand instead; pass it as ./rules or with --config."]
  | .help =>
      ["Help provides help for any command in the application.",
        "Simply type classlint help [path to command] for full details."]
  | command => [command.summary]

/-- How a command is called. -/
def usageLines : Command → List Bytes
  | .lint =>
      ["  classlint [flags] <config-file> <classfile>...", "  classlint [command]"]
  | .scan => ["  classlint scan <classfile>... [flags]"]
  | .rules => ["  classlint rules [flags]"]
  | .graph => ["  classlint graph --out <file.dot> <classfile>... [flags]"]
  | .help => ["  classlint help [command] [flags]"]

/-- The commands that the page of the program lists. -/
def listing : List (Bytes × Bytes) :=
  [("completion", "Generate the autocompletion script for the specified shell"),
    (graph.name, graph.summary), (help.name, help.summary), (rules.name, rules.summary),
    (scan.name, scan.summary)]

/-- The lines of the commands that the page of the program lists. -/
def listingLines : Bytes :=
  listing.flatMap fun (name, summary) => "  " ++ padTo 11 name ++ " " ++ summary ++ "\n"

/-- Lines, each with its line break. -/
def pageLines (lines : List Bytes) : Bytes := lines.flatMap fun line => line ++ "\n"

/-- The opening and the calls of a help page. -/
def pageHead (command : Command) : Bytes :=
  pageLines command.description ++ "\nUsage:\n" ++ pageLines command.usageLines

/-- The help page of a command. Flags of every command stand apart, except on the page of
the program. -/
def helpPage (defaults : FlagDefaults) (command : Command) : Bytes :=
  match command with
  | .lint =>
      lint.pageHead ++ "\nAvailable Commands:\n" ++ listingLines ++ "\nFlags:\n" ++
        flagLines (lint.flags defaults) ++
        "\nUse \"classlint [command] --help\" for more information about a command.\n"
  | _ =>
      command.pageHead ++ "\nFlags:\n" ++
        flagLines (command.helpFlag :: command.ownFlags defaults) ++
        "\nGlobal Flags:\n" ++ flagLines sharedFlags

end Command

end ClassAudit
