import ClassAudit.CommandLine.Scan
import ClassAudit.Reference.Drawing

/-!
# Drawing graphs

Draws the method references of class files, and writes the drawing and, if asked, the
references themselves. Files that do not decode or have no name are left out.
-/

set_option autoImplicit false

namespace ClassAudit

/-- What is asked of a graph command. An empty path stands for the output of the command,
or for no list of references. -/
structure GraphRequest where
  inputs : List Bytes
  strict : Bool
  title : Bytes
  byClass : Bool
  limit : Int
  drawingPath : Bytes
  referencesPath : Bytes
  deriving DecidableEq, Repr

/-- The references of a file, and the log of finding them. -/
def fileReferences (path : Bytes) (decoded : Except OpenError ClassFile) :
    List Reference × List LogEntry :=
  match decoded with
  | .error error => ([], [skippedEntry path error.toFault])
  | .ok file =>
      match file.references with
      | .error error => ([], [skippedEntry path error.toFault])
      | .ok (references, 0) => (references, [])
      | .ok (references, unresolved) =>
          (references,
            [⟨.debug, "unresolvable references",
              [("file", path), ("count", decimal unresolved)]⟩])

/-- The drawing that is asked for. -/
def GraphRequest.drawing (request : GraphRequest) (references : List Reference) : Bytes :=
  if request.byClass then drawClasses references request.title .monochrome request.limit
  else drawMethods references request.title

/-- The JSON form of a list of references; an empty list is null. -/
def referencesJson (references : List Reference) : Json :=
  if references.isEmpty then .null else .array (references.map Reference.toJson)

/-- The log entry of a finished drawing. -/
def drawnEntry (path : Bytes) (files references : Nat) : LogEntry :=
  ⟨.info, "graph written",
    [("out", path), ("files", decimal files), ("refs", decimal references)]⟩

/-- The file tree after the drawing is written, and what goes to the output instead. -/
def writeDrawing (disk : Disk) (path drawing : Bytes) : Except CommandError (Disk × Bytes) :=
  if path.isEmpty then .ok (disk, drawing)
  else
    match disk.writeFile path drawing with
    | .ok written => .ok (written, [])
    | .error reason => .error (.unwrittenGraph reason)

/-- The file tree after the references are written. -/
def writeReferences (disk : Disk) (path : Bytes) (references : List Reference) :
    Except CommandError Disk :=
  if path.isEmpty then .ok disk
  else (disk.writeFile path (referencesJson references).document).mapError
    (.unwrittenReferences path)

/-- Draws the references of files. -/
def graphFiles (disk : Disk) (request : GraphRequest) (files : List Bytes) : Outcome :=
  let found := (decodeAll disk (commandRunner request.strict) files).map
    fun (path, decoded) => fileReferences path decoded
  let references := found.flatMap Prod.fst
  let log := found.flatMap Prod.snd
  match writeDrawing disk request.drawingPath (request.drawing references) with
  | .error error => { verdict := .error error, log, disk }
  | .ok (drawn, output) =>
      match writeReferences drawn request.referencesPath references with
      | .error error => { verdict := .error error, output, log, disk := drawn }
      | .ok listed =>
          { verdict := .ok (), output, disk := listed,
            log := log ++ [drawnEntry request.drawingPath files.length references.length] }

/-- Draws the references of the files that the inputs stand for. -/
def graph (disk : Disk) (request : GraphRequest) : Outcome :=
  match disk.walk request.inputs with
  | .error error => .stopped disk (.run (.unwalked error))
  | .ok files => graphFiles disk request files

end ClassAudit
