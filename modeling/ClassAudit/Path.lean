import ClassAudit.Bytes

/-!
# Paths

A path is a byte string whose parts are divided by slashes. Cleaning a path is lexical:
it looks at the text alone.
-/

set_option autoImplicit false

namespace ClassAudit

namespace Path

/-- The byte that divides the parts of a path. -/
def slash : UInt8 := 0x2F

/-- The part that stands for the directory itself. -/
def here : Bytes := [0x2E]

/-- The part that stands for the directory above. -/
def above : Bytes := [0x2E, 0x2E]

/-- Whether a path starts at the root. -/
def isAbsolute (path : Bytes) : Bool := path.head? == some slash

/-- The parts of a path, empty ones included. -/
def parts (path : Bytes) : List Bytes := Bytes.splitOn slash path

/-- The parts kept so far, last first, after one more part. A step up removes the part
before it, and at the root it counts for nothing. -/
def cleanStep (absolute : Bool) (kept : List Bytes) (part : Bytes) : List Bytes :=
  if part = [] || part = here then kept
  else if part = above then
    match kept with
    | [] => if absolute then [] else [above]
    | last :: rest => if last = above then above :: kept else rest
  else part :: kept

/-- The parts of a path that count, without steps up where possible. -/
def cleanParts (path : Bytes) : List Bytes :=
  ((parts path).foldl (cleanStep (isAbsolute path)) []).reverse

/-- The absolute path with the given parts. -/
def ofParts (parts : List Bytes) : Bytes := slash :: Bytes.joinWith [slash] parts

/-- The shortest path that means the same as the text alone can tell. -/
def clean (path : Bytes) : Bytes :=
  let kept := cleanParts path
  if isAbsolute path then ofParts kept
  else if kept.isEmpty then here
  else Bytes.joinWith [slash] kept

/-- A path continued by another, cleaned. -/
def join (path name : Bytes) : Bytes :=
  if path.isEmpty then (if name.isEmpty then [] else clean name)
  else clean (path ++ slash :: name)

/-- The last part of a path, slashes at its end aside. -/
def baseName (path : Bytes) : Bytes :=
  let trimmed := (path.reverse.dropWhile (· == slash)).reverse
  if trimmed.isEmpty then (if path.isEmpty then [] else [slash])
  else (parts trimmed).getLastD []

/-- What stands from the last dot of the last part on. -/
def ending (path : Bytes) : Bytes :=
  let element := (parts path).getLastD []
  if element.contains 0x2E then
    0x2E :: (element.reverse.takeWhile (· != 0x2E)).reverse
  else []

end Path

end ClassAudit
