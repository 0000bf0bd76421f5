import ClassAudit.FileTree.Basic

/-!
# Expanding directories

A directory among the inputs stands for the class files below it. The test for a
directory follows links; the walk below does not. Every directory on the walk is opened
by its path, cleaned as a text, and one that cannot be opened ends the walk.
-/

set_option autoImplicit false

namespace ClassAudit

/-- Whether a file name is that of a class file. -/
def isClassFileName (name : Bytes) : Bool := name.endsWith ".class"

/-- A directory that cannot be opened. -/
structure ListingError where
  path : Bytes
  reason : FileError
  deriving DecidableEq, Repr

/-- What an entry of a directory stands for: class files, or a directory that cannot be
opened. -/
abbrev Listing := Except ListingError (List Bytes)

/-- The listings of a directory's entries as one, in bytewise order of the names. -/
def joinListings (listings : List (Bytes × Listing)) : Listing := do
  let sorted := listings.mergeSort fun left right => left.1.le right.1
  return (← sorted.mapM (·.2)).flatten

mutual

/-- The paths of the class files below an entry at a path. -/
def FileNode.classFiles (path : Bytes) : FileNode → Listing
  | .directory entries =>
      if 4096 ≤ path.length then .error ⟨path, .nameTooLong⟩
      else joinListings (entryListings path entries)
  | _ => .ok []

/-- The class files that each entry of a directory stands for. -/
def entryListings (path : Bytes) : List (Bytes × FileNode) → List (Bytes × Listing)
  | [] => []
  | (name, node) :: rest =>
      let listing :=
        if node.isDirectory then node.classFiles (Path.join path name)
        else if isClassFileName name then .ok [Path.join path name]
        else .ok []
      (name, listing) :: entryListings path rest

end

/-- An input with a directory below it that cannot be opened. -/
structure WalkError where
  input : Bytes
  failure : ListingError
  deriving DecidableEq, Repr

/-- The chain of an input that cannot be walked. -/
def WalkError.toFault (error : WalkError) : Fault :=
  .classifiedBy .invalidPath ("walk " ++ error.input)
    (error.failure.reason.during "open" error.failure.path)

namespace Disk

/-- The class files below the directory that a path means. -/
def listDirectory (disk : Disk) (path : Bytes) : Listing :=
  match disk.stat path with
  | .ok (.directory entries) => (FileNode.directory entries).classFiles path
  | .ok _ => .error ⟨path, .notDirectory⟩
  | .error reason => .error ⟨path, reason⟩

/-- What an entry of an input stands for. Where the input leads up from a link, the cleaned
path of a directory may mean another one, or none. -/
def entryListing (disk : Disk) (input : Bytes) (entry : Bytes × FileNode) : Listing :=
  let path := Path.join input entry.1
  if entry.2.isDirectory then disk.listDirectory path
  else if isClassFileName entry.1 then .ok [path]
  else .ok []

/-- The files that an input stands for. A path that means no directory stands for
itself. -/
def walkInput (disk : Disk) (input : Bytes) : Except WalkError (List Bytes) :=
  match disk.stat input, disk.linkStat input with
  | .ok (.directory _), .ok (.directory entries) =>
      (joinListings (entries.map fun entry => (entry.1, disk.entryListing input entry))).mapError
        (WalkError.mk input)
  | .ok (.directory _), _ => .ok (if isClassFileName (Path.baseName input) then [input] else [])
  | _, _ => .ok [input]

/-- The files that a list of inputs stands for, unless one of them cannot be walked. -/
def walk (disk : Disk) (inputs : List Bytes) : Except WalkError (List Bytes) := do
  return (← inputs.mapM disk.walkInput).flatten

/-- The files that a list of inputs stands for; none where an input cannot be walked. -/
def expand (disk : Disk) (paths : List Bytes) : List Bytes := (disk.walk paths).toOption.getD []

end Disk

end ClassAudit
