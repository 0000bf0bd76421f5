import ClassAudit.Fault
import ClassAudit.Path

/-!
# File trees

A file tree is a value: files with their bytes, directories and symbolic links. Paths
lead through it part by part, from the root or from the working directory, and links on
the way are followed.
-/

set_option autoImplicit false

namespace ClassAudit

/-- An entry of a file tree. -/
inductive FileNode where
  | file (data : Bytes)
  | directory (entries : List (Bytes × FileNode))
  | link (target : Bytes)
  deriving Repr

namespace FileNode

/-- Whether an entry is a directory. A link to one is none. -/
def isDirectory : FileNode → Bool
  | .directory _ => true
  | _ => false

/-- The entry of a name in a directory. -/
def child? (name : Bytes) : FileNode → Option FileNode
  | .directory entries => entries.lookup name
  | _ => none

/-- The entry below by names, without following links. -/
def descend? (node : FileNode) : List Bytes → Option FileNode
  | [] => some node
  | name :: rest => do (← node.child? name).descend? rest

end FileNode

/-- A file tree and the directory that relative paths start from. -/
structure Disk where
  root : FileNode
  working : List Bytes
  deriving Repr

/-- Why a path leads nowhere. -/
inductive FileError where
  | notFound
  | notDirectory
  | isDirectory
  | tooManyLinks
  | nameTooLong
  | invalidPath
  deriving DecidableEq, Repr

/-- The cause of a path that leads nowhere. -/
def FileError.toFault : FileError → Fault
  | .notFound => .cause .noSuchFile
  | .notDirectory => .plain "not a directory"
  | .isDirectory => .plain "is a directory"
  | .tooManyLinks => .plain "too many levels of symbolic links"
  | .nameTooLong => .plain "file name too long"
  | .invalidPath => .plain "invalid argument"

/-- The cause together with what was tried at which path. -/
def FileError.during (error : FileError) (action path : Bytes) : Fault :=
  .context (action ++ " " ++ path) error.toFault

namespace Disk

/-- The entry with a place below the root, without following links. -/
def node? (disk : Disk) (place : List Bytes) : Option FileNode := disk.root.descend? place

/-- The parts that a path takes one by one. A slash at its end asks for a directory, just
as a step to that directory itself does. -/
def steps (path : Bytes) : List Bytes :=
  (Path.parts path).filter (· != []) ++
    (if path.getLast? == some Path.slash then [Path.here] else [])

/-- Takes steps from a place and returns where they lead. Links on the way are followed,
and one at the end where `followLast` says so: `onward` takes the steps of a link's target
and those behind the link. -/
def followSteps (disk : Disk) (followLast : Bool)
    (onward : List Bytes → List Bytes → Except FileError (List Bytes)) (place : List Bytes) :
    List Bytes → Except FileError (List Bytes)
  | [] => .ok place
  | part :: rest =>
      match disk.node? place with
      | some (.directory entries) =>
          if part = Path.here then followSteps disk followLast onward place rest
          else if part = Path.above then followSteps disk followLast onward place.dropLast rest
          else if 255 < part.length then .error .nameTooLong
          else
            match entries.lookup part with
            | none => .error .notFound
            | some (.link target) =>
                if rest.isEmpty && !followLast then .ok (place ++ [part])
                else onward (if Path.isAbsolute target then [] else place) (steps target ++ rest)
            | some _ => followSteps disk followLast onward (place ++ [part]) rest
      | _ => .error .notDirectory

/-- Takes steps from a place through as many links at most. -/
def follow (disk : Disk) (followLast : Bool) :
    Nat → List Bytes → List Bytes → Except FileError (List Bytes)
  | 0 => disk.followSteps followLast fun _ _ => .error .tooManyLinks
  | left + 1 => disk.followSteps followLast (disk.follow followLast left)

/-- The number of links that one path may lead through. -/
def linkLimit : Nat := 40

/-- The place that a path leads to. -/
def locate (disk : Disk) (followLast : Bool) (path : Bytes) : Except FileError (List Bytes) :=
  if path.isEmpty then .error .notFound
  else if path.contains 0 then .error .invalidPath
  else if 4096 ≤ path.length then .error .nameTooLong
  else disk.follow followLast linkLimit (if Path.isAbsolute path then [] else disk.working)
    (steps path)

/-- The entry at the end of a path. -/
def find (disk : Disk) (followLast : Bool) (path : Bytes) : Except FileError FileNode := do
  match disk.node? (← disk.locate followLast path) with
  | some node => return node
  | none => throw .notFound

/-- The entry that a path means, links followed. -/
def stat (disk : Disk) (path : Bytes) : Except FileError FileNode := disk.find true path

/-- The entry that a path names, which may be a link. -/
def linkStat (disk : Disk) (path : Bytes) : Except FileError FileNode := disk.find false path

/-- The bytes of the file that a path means, or what stopped the reading. -/
def contents (disk : Disk) (path : Bytes) : Except Fault Bytes :=
  match disk.stat path with
  | .ok (.file data) => .ok data
  | .ok _ => .error (FileError.during .isDirectory "read" path)
  | .error error => .error (error.during "open" path)

/-- A path from the root that means the same as the text alone can tell. -/
def absolute (disk : Disk) (path : Bytes) : Bytes :=
  if Path.isAbsolute path then Path.clean path else Path.join (Path.ofParts disk.working) path

end Disk

end ClassAudit
