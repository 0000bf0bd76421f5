import ClassAudit.CommandLine.Lint

/-!
# Scanning

Shows the header and the table sizes of class files. A name that does not resolve is left
out; a file that does not decode is only named in the JSON form.
-/

set_option autoImplicit false

namespace ClassAudit

/-- What a scan shows of a file. -/
inductive ScanEntry where
  | decoded (path : Bytes) (file : ClassFile)
  | failed (path : Bytes) (fault : Fault)
  deriving DecidableEq, Repr

/-- The internal name of a class; empty when it does not resolve. -/
def ClassFile.shownName (file : ClassFile) : Bytes := (file.name.toOption).getD []

/-- The internal name of a superclass; empty when there is none or it does not resolve. -/
def ClassFile.shownSuperName (file : ClassFile) : Bytes := (file.superName.toOption).getD []

/-- The line on a diagnostic. -/
def Diagnostic.scanLine (diagnostic : Diagnostic) : Bytes :=
  "  diag: " ++ diagnostic.text ++ "\n"

/-- The lines on a decoded file. -/
def ClassFile.scanText (path : Bytes) (file : ClassFile) : Bytes :=
  let name : Bytes := if file.shownName.isEmpty then "?" else file.shownName
  let superLine : Bytes :=
    if file.shownSuperName.isEmpty then [] else "  super:      " ++ file.shownSuperName ++ "\n"
  let release : Bytes :=
    match release? file.major with
    | some release => "Java " ++ release
    | none => "unknown release"
  let preview : Bytes := if file.preview then ", preview" else []
  path ++ "\n  class:      " ++ name ++ "\n" ++ superLine ++
    "  version:    " ++ file.version ++ " (" ++ release ++ preview ++ ")\n" ++
    "  flags:      0x" ++ hexPadded 4 file.access.toNat ++ "\n" ++
    "  constants:  " ++ decimal file.pool.count ++ "\n" ++
    "  interfaces: " ++ decimal file.interfaces.length ++
    "  fields: " ++ decimal file.fieldCount ++
    "  methods: " ++ decimal file.methods.length ++
    "  attributes: " ++ decimal file.attributeCount ++ "\n" ++
    file.diagnostics.flatMap Diagnostic.scanLine

/-- The JSON form of a diagnostic. A diagnostic about no method has the number -1. -/
def Diagnostic.toJson (diagnostic : Diagnostic) : Json :=
  .object [Json.field "kind" (.string diagnostic.kind.name),
    Json.field "offset" (.number diagnostic.offset),
    Json.field "method" (.number (diagnostic.method?.getD (-1))),
    Json.field "msg" (.string diagnostic.message)]

/-- The fields with the table sizes of a file. -/
def sizeFields (access constants interfaces fields methods attributes : Nat) :
    List (Bytes × Json) :=
  [Json.field "access_flags" (.number access), Json.field "constants" (.number constants),
    Json.field "interfaces" (.number interfaces), Json.field "fields" (.number fields),
    Json.field "methods" (.number methods), Json.field "attributes" (.number attributes)]

/-- The JSON form of a scanned file. Empty texts and lists are left out, and a file that
does not decode has no sizes but zero. -/
def ScanEntry.toJson : ScanEntry → Json
  | .decoded path file =>
      let release := (release? file.major).getD []
      .object
        ([Json.field "file" (.string path)] ++
          Json.fieldWhen (!file.shownName.isEmpty) "class" (.string file.shownName) ++
          Json.fieldWhen (!file.shownSuperName.isEmpty) "super" (.string file.shownSuperName) ++
          [Json.field "interface" (.bool file.isInterface),
            Json.field "version" (.string file.version)] ++
          Json.fieldWhen (!release.isEmpty) "release" (.string release) ++
          Json.fieldWhen file.preview "preview" (.bool true) ++
          sizeFields file.access.toNat file.pool.count file.interfaces.length file.fieldCount
            file.methods.length file.attributeCount ++
          Json.fieldWhen (!file.diagnostics.isEmpty) "diagnostics"
            (.array (file.diagnostics.map Diagnostic.toJson)))
  | .failed path fault =>
      .object
        ([Json.field "file" (.string path), Json.field "interface" (.bool false)] ++
          sizeFields 0 0 0 0 0 0 ++
          Json.fieldWhen (!fault.message.isEmpty) "error" (.string fault.message))

/-- The lines on a scanned file. -/
def ScanEntry.text : ScanEntry → Bytes
  | .decoded path file => file.scanText path
  | .failed _ _ => []

/-- The log of a scanned file. -/
def ScanEntry.log : ScanEntry → List LogEntry
  | .decoded _ _ => []
  | .failed path fault => [skippedEntry path fault]

/-- Whether a file was decoded. -/
def ScanEntry.isDecoded : ScanEntry → Bool
  | .decoded _ _ => true
  | .failed _ _ => false

/-- Decodes files one after the other. -/
def decodeAll (disk : Disk) : Runner → List Bytes → List (Bytes × Except OpenError ClassFile)
  | _, [] => []
  | runner, path :: rest =>
      let (decoded, runner) := runner.decode disk path
      (path, decoded) :: decodeAll disk runner rest

/-- What a scan shows of a file that was decoded or not. -/
def ScanEntry.of : Bytes × Except OpenError ClassFile → ScanEntry
  | (path, .ok file) => .decoded path file
  | (path, .error error) => .failed path error.toFault

/-- Scans the files that the inputs stand for. The verdict is good when every one of them
decodes. -/
def scan (disk : Disk) (strict json : Bool) (inputs : List Bytes) : Outcome :=
  match disk.walk inputs with
  | .error error => .stopped disk (.run (.unwalked error))
  | .ok files =>
      let entries := (decodeAll disk (commandRunner strict) files).map ScanEntry.of
      { verdict := if entries.all ScanEntry.isDecoded then .ok () else .error .reported,
        output :=
          if json then (Json.array (entries.map ScanEntry.toJson)).document
          else entries.flatMap ScanEntry.text,
        log := entries.flatMap ScanEntry.log,
        disk }

end ClassAudit
