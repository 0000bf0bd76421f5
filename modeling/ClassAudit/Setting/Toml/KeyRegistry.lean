import ClassAudit.Setting.Flaw

/-!
# Keys defined so far

A document must not define a key twice. Tables may be opened step by step: a table that
was only passed through can still be opened by a header of its own, once. A table made by
a dotted key is closed to headers once another header begins, and a table opened by a
header is closed to dotted keys.
-/

set_option autoImplicit false

namespace ClassAudit.Toml

/-- A key with the tables that lead to it. -/
abbrev KeyPath := List Bytes

/-- What a key holds. -/
inductive KeyKind where
  | value
  | table
  | tableList
  deriving DecidableEq, Repr

/-- What is known of a key: what it holds, whether it is closed to another definition,
and whether a dotted key made it. -/
structure KeyEntry where
  kind : KeyKind
  closed : Bool
  dotted : Bool
  deriving DecidableEq, Repr

/-- The keys of a document, by their full paths, and the table of the latest header. -/
structure KeyRegistry where
  entries : List (KeyPath × KeyEntry) := []
  current : KeyPath := []
  deriving DecidableEq, Repr

namespace KeyRegistry

/-- What is known of a path. -/
def entry? (registry : KeyRegistry) (path : KeyPath) : Option KeyEntry :=
  registry.entries.lookup path

/-- Records a path. -/
def put (registry : KeyRegistry) (path : KeyPath) (entry : KeyEntry) : KeyRegistry :=
  { registry with
    entries := (path, entry) :: registry.entries.filter (fun known => known.1 != path) }

/-- Whether a path lies strictly inside a table. -/
def isInside (table path : KeyPath) : Bool := table.isPrefixOf path && table.length < path.length

/-- Closes the tables that dotted keys have made in the current table. -/
def closeDotted (registry : KeyRegistry) : KeyRegistry :=
  { registry with
    entries := registry.entries.map fun (path, entry) =>
      if isInside registry.current path && entry.dotted then
        (path, { entry with closed := true, dotted := false })
      else (path, entry) }

/-- Forgets what lies inside a path. -/
def clearInside (registry : KeyRegistry) (table : KeyPath) : KeyRegistry :=
  { registry with
    entries := registry.entries.filter fun known => !isInside table known.1 }

/-- Passes through the tables that lead to a header's key, making those that are
missing. -/
def passThrough (registry : KeyRegistry) (base : KeyPath) :
    KeyPath → Except SettingFlaw KeyRegistry
  | [] => .ok registry
  | key :: rest =>
      let path := base ++ [key]
      match registry.entry? path with
      | none => passThrough (registry.put path ⟨.table, false, false⟩) path rest
      | some entry =>
          if entry.kind = .value then .error (.redefined key)
          else passThrough registry path rest

/-- Enters the header of a table. -/
def openTable (registry : KeyRegistry) (path : KeyPath) : Except SettingFlaw KeyRegistry := do
  let passed ← registry.closeDotted.passThrough [] path.dropLast
  match passed.entry? path with
  | none => return { passed.put path ⟨.table, true, false⟩ with current := path }
  | some entry =>
      if entry.kind = .table && !entry.closed then
        return { passed.put path { entry with closed := true } with current := path }
      else throw (.redefined (path.getLastD []))

/-- Enters the header of one more table of a list. -/
def openListItem (registry : KeyRegistry) (path : KeyPath) :
    Except SettingFlaw KeyRegistry := do
  let passed ← registry.closeDotted.passThrough [] path.dropLast
  match passed.entry? path with
  | none => return { passed.put path ⟨.tableList, true, false⟩ with current := path }
  | some entry =>
      if entry.kind = .tableList then
        return { passed.clearInside path with current := path }
      else throw (.redefined (path.getLastD []))

/-- Defines a key, dotted or not, in a table. -/
def defineFrom (registry : KeyRegistry) (base : KeyPath) :
    KeyPath → Except SettingFlaw KeyRegistry
  | [] => .ok registry
  | [key] =>
      let path := base ++ [key]
      match registry.entry? path with
      | none => .ok (registry.put path ⟨.value, false, true⟩)
      | some _ => .error (.redefined key)
  | key :: rest =>
      let path := base ++ [key]
      match registry.entry? path with
      | none => defineFrom (registry.put path ⟨.table, false, true⟩) path rest
      | some entry =>
          if entry.kind = .table && !entry.closed then defineFrom registry path rest
          else .error (.redefined key)

/-- Defines a key in the current table. -/
def define (registry : KeyRegistry) (path : KeyPath) : Except SettingFlaw KeyRegistry :=
  registry.defineFrom registry.current path

end KeyRegistry

end ClassAudit.Toml
