import ClassAudit.ClassFile.Decode
import ClassAudit.FileTree.Canonical

/-!
# Opening class files

A class file is found by its canonical path, has to be a regular file within a size cap,
and is then decoded.
-/

set_option autoImplicit false

namespace ClassAudit

/-- How class files are opened. -/
structure OpenOptions where
  mode : DecodeMode := .bestEffort
  cap : Int := 0
  deriving DecidableEq, Repr

/-- The size cap in effect: 64 MiB unless a positive one is given. -/
def OpenOptions.effectiveCap (options : OpenOptions) : Int :=
  if 0 < options.cap then options.cap else 64 * 1024 * 1024

/-- Why a class file cannot be opened. -/
inductive OpenError where
  | unresolved (path : Bytes) (reason : CanonicalError)
  | unopened (path : Bytes) (reason : FileError)
  | notRegular (path : Bytes)
  | tooLarge (path : Bytes) (size : Nat) (cap : Int)
  | undecodable (path : Bytes) (reason : DecodeError)
  deriving DecidableEq, Repr

/-- The chain of a class file that cannot be opened. -/
def OpenError.toFault : OpenError → Fault
  | .unresolved path reason => .classifiedBy .invalidPath path reason.toFault
  | .unopened path reason =>
      .classifiedBy .invalidPath ("open " ++ path) (reason.during "open" path)
  | .notRegular path => .classifiedBy .invalidPath path (.cause .notRegular)
  | .tooLarge path size cap =>
      .classifiedBy .parse
        (path ++ " is " ++ decimal size ++ " bytes, cap is " ++ signedDecimal cap)
        (.cause .tooLarge)
  | .undecodable path reason => .context path reason.toFault

namespace Disk

/-- The bytes of a regular file within the cap. -/
def readClassFile (disk : Disk) (options : OpenOptions) (path : Bytes) :
    Except OpenError Bytes :=
  match disk.stat path with
  | .error reason => .error (.unopened path reason)
  | .ok (.file data) =>
      if options.effectiveCap < data.length then
        .error (.tooLarge path data.length options.effectiveCap)
      else .ok data
  | .ok _ => .error (.notRegular path)

/-- The canonical form of a path, with the path in the error. -/
def canonicalPath (disk : Disk) (path : Bytes) : Except OpenError Bytes :=
  (disk.canonical path).mapError (.unresolved path)

/-- Opens and decodes the class file at a path. -/
def openClass (disk : Disk) (options : OpenOptions) (path : Bytes) :
    Except OpenError ClassFile := do
  let data ← disk.readClassFile options (← disk.canonicalPath path)
  (decode options.mode data).mapError (.undecodable path)

end Disk

end ClassAudit
