import ClassAudit.CommandLine.Session

/-!
# The program

Copies the part of the machine's file system that a call looks at into a file tree, makes
the call on it, and carries its outcome back: written files, both outputs and the exit
code.
-/

set_option autoImplicit false

namespace ClassAudit

/-- The text of a byte string; stray bytes are replaced. -/
def machineText (bytes : Bytes) : String :=
  let shown := (runes bytes).flatMap Rune.replacedBytes
  (String.fromUTF8? (ByteArray.mk shown.toArray)).getD ""

/-- The path of a place as the machine takes it. -/
def machinePath (place : List Bytes) : String := machineText (Path.ofParts place)

/-- What the machine has at a place, links not followed. -/
def machineType? (place : List Bytes) : IO (Option IO.FS.FileType) := do
  let path := (← IO.currentDir) / machinePath place
  try
    return some (← path.symlinkMetadata).type
  catch _ => return none

/-- The bytes of a file of the machine. -/
def machineBytes (place : List Bytes) : IO Bytes := do
  return (← IO.FS.readBinFile (machinePath place)).data.toList

/-- The tree with a directory at a place, unless something is there already. -/
def withDirectory (disk : Disk) (place : List Bytes) : Disk :=
  if (disk.node? place).isSome then disk else disk.put place (.directory [])

/-- Copies what a path passes through. A link is copied with its final target, and the
path goes on from there. -/
partial def copyPath (disk : Disk) (done : List Bytes) : List Bytes → IO (Disk × List Bytes)
  | [] => return (disk, done)
  | name :: rest => do
      let place := done ++ [name]
      match ← machineType? place with
      | some .dir => copyPath (withDirectory disk place) place rest
      | some .file => return (disk.put place (.file (← machineBytes place)), place)
      | some .symlink =>
          try
            let target := Bytes.ofString (← IO.FS.realPath (machinePath place)).toString
            copyPath (disk.put place (.link target)) [] (Path.cleanParts target ++ rest)
          catch _ => return (disk, place)
      | _ => return (disk, place)

/-- Copies the class files and the links below a directory. Links are copied with their
targets, but no link is walked through. -/
partial def copyBelow (disk : Disk) (place : List Bytes) : IO Disk := do
  let path := (← IO.currentDir) / machinePath place
  (← path.readDir).foldlM (fun disk entry => do
    let name := Bytes.ofString entry.fileName
    let child := place ++ [name]
    match ← machineType? child with
    | some .dir => copyBelow (withDirectory disk child) child
    | some .file =>
        if isClassFileName name then return (← copyPath disk place [name]).1 else return disk
    | _ => return (← copyPath disk place [name]).1) disk

/-- Copies what a call may look at below a path. -/
def copyInput (disk : Disk) (path : Bytes) : IO Disk := do
  let (disk, reached) ← copyPath disk [] (disk.placeOf path)
  if (← machineType? reached) matches some .dir then copyBelow disk reached else return disk

/-- Writes a file of the tree to the machine if a call changed it. -/
def writeBack (before after : Disk) (path : Bytes) : IO Unit := do
  match after.contents path with
  | .error _ => return
  | .ok data =>
      if (before.contents path).toOption = some data then return
      IO.FS.writeBinFile (machinePath (after.placeOf path)) (ByteArray.mk data.toArray)

/-- The variables that calls look at, as far as they are set. -/
def machineVariables : IO Environment :=
  [configVariable, workersVariable, noColourVariable].filterMapM fun name => do
    return (← IO.getEnv (machineText name)).map fun value => (name, Bytes.ofString value)

/-- Makes a call on the machine. -/
def runOnMachine (arguments : List String) : IO UInt32 := do
  let working := Path.cleanParts (Bytes.ofString (← IO.currentDir).toString)
  let (disk, _) ← copyPath { root := .directory [], working } [] working
  let disk ← copyInput disk variablesFile
  let call : Invocation :=
    { arguments := arguments.map Bytes.ofString, environment := ← machineVariables,
      terminal := ← (← IO.getStdout).isTty, disk }
  let call := call.withVariablesFile
  let disk ← call.paths.read.foldlM copyInput disk
  let disk ← call.paths.written.foldlM
    (fun disk path => return (← copyPath disk [] (disk.placeOf path)).1) disk
  let result := { call with disk }.run
  call.paths.written.forM (writeBack disk result.disk)
  (← IO.getStderr).write (ByteArray.mk result.errors.toArray)
  (← IO.getStdout).write (ByteArray.mk result.output.toArray)
  return result.code.toUInt32

end ClassAudit

/-- The entry point of the program. -/
def main (arguments : List String) : IO UInt32 := ClassAudit.runOnMachine arguments
