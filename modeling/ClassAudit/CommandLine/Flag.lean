import ClassAudit.CommandLine.Numeral
import ClassAudit.Text.Quoted

/-!
# Flags

A command line mixes flags with positional arguments. A flag has a name, perhaps a letter,
and a value that is a toggle, an integer or a text. Letters can be grouped; a double dash
ends the flags.
-/

set_option autoImplicit false

namespace ClassAudit

/-- The value of a flag. -/
inductive FlagValue where
  | toggle (on : Bool)
  | integer (value : Int)
  | text (value : Bytes)
  deriving DecidableEq, Repr

/-- A flag with its value when it is not given. That value fixes what the flag takes. -/
structure Flag where
  name : Bytes
  letter? : Option UInt8 := none
  usage : Bytes
  initial : FlagValue
  deriving DecidableEq, Repr

/-- Why a text is no value for a flag. -/
inductive ValueError where
  | notToggle
  | notInteger (reason : NumeralError)
  deriving DecidableEq, Repr

/-- The text of a refused value. -/
def ValueError.text (value : Bytes) : ValueError → Bytes
  | .notToggle => "strconv.ParseBool: parsing " ++ quoted value ++ ": invalid syntax"
  | .notInteger reason =>
      "strconv.ParseInt: parsing " ++ quoted value ++ ": " ++ reason.text

/-- The spellings of a toggle that is on. -/
def onSpellings : List Bytes := ["1", "t", "T", "true", "TRUE", "True"]

/-- The spellings of a toggle that is off. -/
def offSpellings : List Bytes := ["0", "f", "F", "false", "FALSE", "False"]

/-- Reads a text as a value of the same sort as another. -/
def FlagValue.readLike (sort : FlagValue) (value : Bytes) : Except ValueError FlagValue :=
  match sort with
  | .toggle _ =>
      if onSpellings.contains value then .ok (.toggle true)
      else if offSpellings.contains value then .ok (.toggle false)
      else .error .notToggle
  | .integer _ =>
      match Numeral.read value with
      | .ok number => .ok (.integer number)
      | .error reason => .error (.notInteger reason)
  | .text _ => .ok (.text value)

/-- Why a command line is refused. -/
inductive FlagError where
  | malformed (argument : Bytes)
  | unknown (name : Bytes)
  | unknownLetter (letter : UInt8) (group : Bytes)
  | valueMissing (name : Bytes)
  | letterValueMissing (letter : UInt8) (group : Bytes)
  | invalidValue (label value : Bytes) (reason : ValueError)
  deriving DecidableEq, Repr

/-- The character that stands for a letter in a message. A letter beyond ASCII is shown by
the first byte of its two-byte form. -/
def shownLetter (letter : UInt8) : UInt8 :=
  if letter < 0x80 then letter else if letter < 0xC0 then 0xC2 else 0xC3

/-- The text of a refusal. -/
def FlagError.text : FlagError → Bytes
  | .malformed argument => "bad flag syntax: " ++ argument
  | .unknown name => "unknown flag: --" ++ name
  | .unknownLetter letter group =>
      "unknown shorthand flag: " ++ quotedByte (shownLetter letter) ++ " in -" ++ group
  | .valueMissing name => "flag needs an argument: --" ++ name
  | .letterValueMissing letter group =>
      "flag needs an argument: " ++ quotedByte letter ++ " in -" ++ group
  | .invalidValue label value reason =>
      "invalid argument " ++ quoted value ++ " for " ++ quoted label ++ " flag: " ++
        reason.text value

namespace Flag

/-- Whether a flag stands alone: only a toggle does. -/
def standsAlone (flag : Flag) : Bool :=
  match flag.initial with
  | .toggle _ => true
  | _ => false

/-- The letter and the name of a flag, with their dashes. -/
def label (flag : Flag) : Bytes :=
  match flag.letter? with
  | some letter => Bytes.ofString "-" ++ [letter] ++ ", --" ++ flag.name
  | none => "--" ++ flag.name

/-- The flag with a name. -/
def named? (flags : List Flag) (name : Bytes) : Option Flag :=
  flags.find? fun flag => flag.name == name

/-- The flag with a letter. -/
def lettered? (flags : List Flag) (letter : UInt8) : Option Flag :=
  flags.find? fun flag => flag.letter? == some letter

end Flag

/-- Flags with the values they were given, the latest first. -/
abbrev FlagSettings := List (Bytes × FlagValue)

namespace FlagSettings

/-- The settings of a command line that gives no flag. -/
def initial (flags : List Flag) : FlagSettings := flags.map fun flag => (flag.name, flag.initial)

/-- The value of a toggle. -/
def isOn (settings : FlagSettings) (name : Bytes) : Bool :=
  match settings.lookup name with
  | some (.toggle on) => on
  | _ => false

/-- The value of an integer flag. -/
def integer (settings : FlagSettings) (name : Bytes) : Int :=
  match settings.lookup name with
  | some (.integer value) => value
  | _ => 0

/-- The value of a text flag. -/
def text (settings : FlagSettings) (name : Bytes) : Bytes :=
  match settings.lookup name with
  | some (.text value) => value
  | _ => []

end FlagSettings

/-! ## Reading arguments -/

/-- A dash, which starts a flag. -/
def dash : UInt8 := 0x2D

/-- An equals sign, which divides a flag from its value. -/
def equalsSign : UInt8 := 0x3D

/-- The argument that ends the flags. -/
def endOfFlags : Bytes := [dash, dash]

/-- What an argument sets, the latest first, and whether it takes the next argument as a
value. -/
structure FlagStep where
  settings : FlagSettings
  takesNext : Bool := false
  deriving DecidableEq, Repr

/-- Sets a flag from a text. -/
def Flag.set (flag : Flag) (value : Bytes) : Except FlagError (Bytes × FlagValue) :=
  match flag.initial.readLike value with
  | .ok read => .ok (flag.name, read)
  | .error reason => .error (.invalidValue flag.label value reason)

/-- Sets a flag that is given without a value of its own: a toggle goes on, and any other
flag takes the next argument. -/
def Flag.setFromNext (flag : Flag) (next? : Option Bytes) (missing : FlagError) :
    Except FlagError FlagStep :=
  if flag.standsAlone then .ok { settings := [(flag.name, .toggle true)] }
  else
    match next? with
    | none => .error missing
    | some value => do return { settings := [← flag.set value], takesNext := true }

/-- Reads an argument that starts with two dashes; `body` is what follows them. -/
def readNamed (flags : List Flag) (body : Bytes) (next? : Option Bytes) :
    Except FlagError FlagStep :=
  if body.head? == some dash || body.head? == some equalsSign then
    .error (.malformed (endOfFlags ++ body))
  else
    let name := body.takeWhile (· != equalsSign)
    match Flag.named? flags name with
    | none => .error (.unknown name)
    | some flag =>
        match body.dropWhile (· != equalsSign) with
        | _ :: value => do return { settings := [← flag.set value] }
        | [] => flag.setFromNext next? (.valueMissing name)

/-- Reads a group of letters. A toggle goes on and leaves the rest of the group to other
flags; any other flag takes the rest of the group as its value. A group that starts with
`test.` is passed over. -/
def readGroup (flags : List Flag) (next? : Option Bytes) : Bytes → Except FlagError FlagStep
  | [] => .ok { settings := [] }
  | letter :: rest =>
      if (Bytes.ofString "test.").isPrefixOf (letter :: rest) then .ok { settings := [] }
      else
        match Flag.lettered? flags letter with
        | none => .error (.unknownLetter letter (letter :: rest))
        | some flag =>
            if rest.head? == some equalsSign && 1 < rest.length then do
              return { settings := [← flag.set rest.tail] }
            else if flag.standsAlone then do
              let others ← readGroup flags next? rest
              return { others with settings := others.settings ++ [(flag.name, .toggle true)] }
            else if !rest.isEmpty then do
              return { settings := [← flag.set rest] }
            else flag.setFromNext next? (.letterValueMissing letter (letter :: rest))

/-- Whether an argument is positional: it has no dash in front, or is a dash alone. -/
def isPositional (argument : Bytes) : Bool :=
  argument.head? != some dash || argument == [dash]

/-- Reads one argument that is not positional. -/
def readFlag (flags : List Flag) (argument : Bytes) (next? : Option Bytes) :
    Except FlagError FlagStep :=
  match argument with
  | 0x2D :: 0x2D :: body => readNamed flags body next?
  | _ :: group => readGroup flags next? group
  | [] => .ok { settings := [] }

/-- The flags and the positional arguments of a command line. -/
structure ParsedArguments where
  settings : FlagSettings
  positionals : List Bytes
  deriving DecidableEq, Repr

/-- Reads arguments on top of earlier settings. -/
def readArguments (flags : List Flag) (settings : FlagSettings) :
    List Bytes → Except FlagError ParsedArguments
  | [] => .ok ⟨settings, []⟩
  | argument :: rest =>
      if argument == endOfFlags then .ok ⟨settings, rest⟩
      else if isPositional argument then do
        let parsed ← readArguments flags settings rest
        return { parsed with positionals := argument :: parsed.positionals }
      else
        match readFlag flags argument rest.head? with
        | .error error => .error error
        | .ok step =>
            if step.takesNext then
              match rest with
              | [] => .ok ⟨step.settings ++ settings, []⟩
              | _ :: others => readArguments flags (step.settings ++ settings) others
            else readArguments flags (step.settings ++ settings) rest

/-- Reads the arguments of a command with the given flags. -/
def parseArguments (flags : List Flag) (arguments : List Bytes) :
    Except FlagError ParsedArguments :=
  readArguments flags (.initial flags) arguments

end ClassAudit
