import ClassAudit.FileTree.Basic

/-!
# Changing a file tree

Entries are put at a place or removed from it. Missing directories are made on the way.
-/

set_option autoImplicit false

namespace ClassAudit

/-- The entries of a directory after one of them is set, or removed. A new one goes
last. -/
def setEntry (entries : List (Bytes × FileNode)) (name : Bytes) (node? : Option FileNode) :
    List (Bytes × FileNode) :=
  match node? with
  | none => entries.filter fun entry => entry.1 != name
  | some node =>
      if entries.any (fun entry => entry.1 == name) then
        entries.map fun entry => if entry.1 == name then (name, node) else entry
      else entries ++ [(name, node)]

/-- The entries of a directory; an entry of another kind has none. -/
def FileNode.entries : FileNode → List (Bytes × FileNode)
  | .directory entries => entries
  | _ => []

/-- An entry after the entry at a place below it is set. -/
def FileNode.put (node : FileNode) : List Bytes → FileNode → FileNode
  | [], new => new
  | name :: rest, new =>
      let child := (node.child? name).getD (.directory [])
      .directory (setEntry node.entries name (some (child.put rest new)))

/-- An entry after the entry at a place below it is removed. -/
def FileNode.remove (node : FileNode) : List Bytes → FileNode
  | [] => node
  | [name] => .directory (setEntry node.entries name none)
  | name :: rest =>
      match node.child? name with
      | some child => .directory (setEntry node.entries name (some (child.remove rest)))
      | none => node

namespace Disk

/-- Sets the entry at a place. -/
def put (disk : Disk) (place : List Bytes) (node : FileNode) : Disk :=
  { disk with root := disk.root.put place node }

/-- Removes the entry at a place. -/
def remove (disk : Disk) (place : List Bytes) : Disk :=
  { disk with root := disk.root.remove place }

/-- A path without slashes at its end, as the path of its directory and a name in it. -/
def splitName (path : Bytes) : Bytes × Bytes :=
  let trimmed := (path.reverse.dropWhile (· == Path.slash)).reverse
  let name := (Path.parts trimmed).getLastD []
  (trimmed.take (trimmed.length - name.length), name)

/-- The place where a file is written: an existing file, links followed, or a new entry
of an existing directory. -/
def writePlace (disk : Disk) : Nat → Bytes → Except FileError (List Bytes)
  | 0, _ => .error .tooManyLinks
  | links + 1, path => do
      if path.isEmpty then throw .notFound
      let (parent, name) := splitName path
      let place ← if parent.isEmpty then pure disk.working else disk.locate true parent
      if path.getLast? == some Path.slash || name = Path.here || name = Path.above then
        throw .isDirectory
      if 255 < name.length then throw .nameTooLong
      match disk.node? (place ++ [name]) with
      | none | some (.file _) => return place ++ [name]
      | some (.directory _) => throw .isDirectory
      | some (.link target) =>
          writePlace disk links
            (if Path.isAbsolute target then target
              else Path.ofParts place ++ Path.slash :: target)

/-- Writes a file. -/
def writeFile (disk : Disk) (path data : Bytes) : Except Fault Disk :=
  match disk.writePlace (linkLimit + 1) path with
  | .ok place => .ok (disk.put place (.file data))
  | .error error => .error (error.during "open" path)

/-- The place that a path names as the text alone can tell. -/
def placeOf (disk : Disk) (path : Bytes) : List Bytes := Path.cleanParts (disk.absolute path)

/-- Puts an entry at a path; missing directories are made. -/
def store (disk : Disk) (path : Bytes) (node : FileNode) : Disk :=
  disk.put (disk.placeOf path) node

/-- Puts a file at a path. An existing file is replaced, links followed; missing
directories are made. -/
def storeFile (disk : Disk) (path data : Bytes) : Disk :=
  match disk.writeFile path data with
  | .ok written => written
  | .error _ => disk.store path (.file data)

/-- Deletes the entry that a path names, if there is one. -/
def delete (disk : Disk) (path : Bytes) : Disk :=
  match disk.locate false path with
  | .ok place => disk.remove place
  | .error _ => disk

end Disk

end ClassAudit
