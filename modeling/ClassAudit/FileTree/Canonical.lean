import ClassAudit.FileTree.Basic

/-!
# Canonical paths

The canonical form of a path starts at the root and holds no link. The path is first
cleaned as a text; then its parts are looked up one by one and links are replaced by
their targets.
-/

set_option autoImplicit false

namespace ClassAudit

/-- Why a path has no canonical form. -/
inductive CanonicalError where
  | missing (place : Bytes) (reason : FileError)
  | notDirectory
  | tooManyLinks
  deriving DecidableEq, Repr

/-- The cause of a path without a canonical form. -/
def CanonicalError.toFault : CanonicalError → Fault
  | .missing place reason => reason.during "lstat" place
  | .notDirectory => FileError.notDirectory.toFault
  | .tooManyLinks => .plain "EvalSymlinks: too many links"

/-- The place above. The topmost directory keeps the step up as a part. -/
def placeAbove (place : List Bytes) : List Bytes :=
  if 2 ≤ place.length && place.getLast? != some Path.above then place.dropLast
  else place ++ [Path.above]

namespace Disk

/-- Resolves parts from a place without links on. A file may only stand at the end, and
`onward` resolves the parts of a link's target and those behind the link. -/
def resolveSteps (disk : Disk)
    (onward : List Bytes → List Bytes → Except CanonicalError (List Bytes))
    (place : List Bytes) : List Bytes → Except CanonicalError (List Bytes)
  | [] => .ok place
  | part :: rest =>
      if part = [] || part = Path.here then resolveSteps disk onward place rest
      else if part = Path.above then resolveSteps disk onward (placeAbove place) rest
      else
        let next := place ++ [part]
        match disk.linkStat (Path.ofParts next) with
        | .error reason => .error (.missing (Path.ofParts next) reason)
        | .ok (.directory _) => resolveSteps disk onward next rest
        | .ok (.file _) => if rest.isEmpty then .ok next else .error .notDirectory
        | .ok (.link target) =>
            onward (if Path.isAbsolute target then [] else place) (Path.parts target ++ rest)

/-- Resolves parts from a place and replaces as many links at most. -/
def resolveParts (disk : Disk) :
    Nat → List Bytes → List Bytes → Except CanonicalError (List Bytes)
  | 0 => disk.resolveSteps fun _ _ => .error .tooManyLinks
  | left + 1 => disk.resolveSteps (disk.resolveParts left)

/-- The number of links that may be replaced. -/
def canonicalLinkLimit : Nat := 255

/-- The canonical form of a path. -/
def canonical (disk : Disk) (path : Bytes) : Except CanonicalError Bytes := do
  let place ← disk.resolveParts canonicalLinkLimit [] (Path.parts (disk.absolute path))
  return Path.clean (Path.ofParts place)

end Disk

end ClassAudit
