import ClassAudit.Decimal.Shortest
import ClassAudit.Setting.Yaml.Resolution

/-!
# Settings of a YAML document

The first document of a text as a table. Aliases are replaced by the values they stand
for, within a limit on how much of the work may come from them, and merge keys add the
fields of other tables.
-/

set_option autoImplicit false

namespace ClassAudit.Yaml

/-- The work done so far: the nodes visited, and those of them inside aliases. -/
structure Effort where
  visited : Nat := 0
  aliased : Nat := 0
  deriving DecidableEq, Repr

/-- Whether too much of the work comes from aliases: more than 99 percent in a small
document, falling to 10 percent between 400 thousand and 4 million visits. -/
def Effort.isExcessive (effort : Effort) : Bool :=
  100 < effort.aliased && 1000 < effort.visited &&
    if effort.visited ≤ 400000 then 99 * effort.visited < 100 * effort.aliased
    else if 4000000 ≤ effort.visited then effort.visited < 10 * effort.aliased
    else
      effort.visited * (99 * 3600000 - 89 * (effort.visited - 400000)) <
        100 * 3600000 * effort.aliased

/-- A step of valuing a tree. -/
abbrev Valuing := StateT Effort (Except SettingFlaw)

/-- A table key: its text and whether it is a string. -/
structure TableKey where
  isString : Bool
  text : Bytes
  deriving DecidableEq, Repr

/-- The fields of a table under construction, and the keys that no merged table may
set. -/
structure Fields where
  settings : Settings := []
  taken : List TableKey := []

/-- The surroundings of a node: the anchored nodes, and the aliases being replaced. -/
structure Surroundings where
  anchored : List (Nat × Node)
  active : List Nat := []

/-- Counts a visit to a node. -/
def visit (around : Surroundings) : Valuing Unit := do
  modify fun effort =>
    { visited := effort.visited + 1,
      aliased := if around.active.isEmpty then effort.aliased else effort.aliased + 1 }
  if (← get).isExcessive then throw .excessiveAliases

/-- Enters the node of an alias. -/
def enterAlias (around : Surroundings) (name : Bytes) (target : Nat) :
    Valuing (Node × Surroundings) := do
  if around.active.contains target then throw (.recursiveAnchor name)
  match around.anchored.lookup target with
  | some node => return (node, { around with active := target :: around.active })
  | none => throw (.recursiveAnchor name)

/-- The node an alias stands for. -/
def aliasTarget? (around : Surroundings) (target : Nat) : Option Node :=
  around.anchored.lookup target

/-- What makes two keys of one table the same: their shape and their text. -/
def keySignature : Node → Nat × Bytes
  | .scalar _ text => (0, text)
  | .sequence _ => (1, [])
  | .mapping _ => (2, [])
  | .alias name _ => (3, name)

/-- The first key that a table has twice. -/
def repeatedKey? : List (Node × Node) → Option Bytes
  | [] => none
  | (key, _) :: rest =>
      if rest.any (fun other => keySignature other.1 == keySignature key) then
        some (keySignature key).2
      else repeatedKey? rest

/-- Whether a scalar is a string, or a merge key. -/
def isStringScalar (tag : Option Bytes) (text : Bytes) : Bool :=
  match tag with
  | some tag => tag == stringTag || tag == mergeTag
  | none =>
      match spelledValue true text with
      | .string _ => true
      | _ => false

/-- Whether a key is a string. -/
def isStringKey (around : Surroundings) : Node → Bool
  | .scalar tag text => isStringScalar tag text
  | .alias _ target =>
      match aliasTarget? around target with
      | some (.scalar tag text) => isStringScalar tag text
      | _ => false
  | _ => false

/-- Whether a node is the key that merges other tables. -/
def isMergeKey : Node → Bool
  | .scalar tag text => tag == some mergeTag && text == Bytes.ofString "<<"
  | _ => false

/-- The key of a scalar. Where keys are strings they count as they are written, and a
null is no key. -/
def scalarKey (asText : Bool) (tag : Option Bytes) (text : Bytes) :
    Except SettingFlaw (Option TableKey) := do
  let value ← scalarValue tag text
  if asText then
    match value with
    | .null => return none
    | .string decoded =>
        return some ⟨true, if tag == some (Bytes.ofString "!!binary") then decoded else text⟩
    | _ => return some ⟨true, text⟩
  else
    match value with
    | .string decoded => return some ⟨true, decoded⟩
    | .int number => return some ⟨false, signedDecimal number.value⟩
    | .float number => return some ⟨false, number.text⟩
    | .bool flag => return some ⟨false, if flag then "true" else "false"⟩
    | .null => return some ⟨false, "<nil>"⟩
    | _ => return some ⟨false, text⟩

/-- The key of a node, if it has one. -/
def nodeKey : Nat → Surroundings → Bool → Node → Valuing (Option TableKey)
  | 0, _, _, _ => throw .nestedTooDeeply
  | fuel + 1, around, asText, node => do
      visit around
      match node with
      | .scalar tag text => scalarKey asText tag text
      | .alias name target =>
          let (node, inside) ← enterAlias around name target
          nodeKey fuel inside asText node
      | _ => throw .badKey

/-- The fields with one more, unless its key is taken. -/
def Fields.add (fields : Fields) (merging : Bool) (key : TableKey) (value : SettingValue) :
    Fields :=
  let settings :=
    (fields.settings.filter (fun field => field.1 != key.text)) ++ [(key.text, value)]
  { settings, taken := if merging then key :: fields.taken else fields.taken }

mutual

/-- The value of a node. -/
def nodeValue : Nat → Surroundings → Node → Valuing SettingValue
  | 0, _, _ => throw .nestedTooDeeply
  | fuel + 1, around, node => do
      visit around
      match node with
      | .scalar tag text => scalarValue tag text
      | .alias name target =>
          let (node, inside) ← enterAlias around name target
          nodeValue fuel inside node
      | .sequence items => return .list (← itemValues fuel around items)
      | .mapping pairs =>
          let asText := pairs.all (fun pair => isStringKey around pair.1)
          return .table (← tableFields fuel around asText false {} pairs).settings

/-- The values of the items of a sequence. -/
def itemValues : Nat → Surroundings → List Node → Valuing (List SettingValue)
  | 0, _, _ => throw .nestedTooDeeply
  | _ + 1, _, [] => return []
  | fuel + 1, around, item :: rest => do
      let value ← nodeValue fuel around item
      return value :: (← itemValues fuel around rest)

/-- Fields with those of a table added: first its own, then those it merges. -/
def tableFields : Nat → Surroundings → Bool → Bool → Fields → List (Node × Node) → Valuing Fields
  | 0, _, _, _, _, _ => throw .nestedTooDeeply
  | fuel + 1, around, asText, merging, fields, pairs => do
      match repeatedKey? pairs with
      | some key => throw (.redefined key)
      | none =>
          let own ← ownFields fuel around asText merging fields pairs
          match pairs.find? (fun pair => isMergeKey pair.1) with
          | none => return own
          | some (_, source) =>
              let taken ←
                if merging then pure own.taken else takenKeys fuel around pairs
              mergedFields fuel around asText { own with taken } source

/-- Fields with the pairs of a table added, its merge key left out. -/
def ownFields : Nat → Surroundings → Bool → Bool → Fields → List (Node × Node) → Valuing Fields
  | 0, _, _, _, _, _ => throw .nestedTooDeeply
  | _ + 1, _, _, _, fields, [] => return fields
  | fuel + 1, around, asText, merging, fields, (key, node) :: rest => do
      if isMergeKey key then ownFields fuel around asText merging fields rest
      else
        match ← nodeKey fuel around asText key with
        | none => ownFields fuel around asText merging fields rest
        | some key =>
            if merging && fields.taken.contains key then
              ownFields fuel around asText merging fields rest
            else
              let value ← nodeValue fuel around node
              ownFields fuel around asText merging (fields.add merging key value) rest

/-- The keys of a table that merges others. -/
def takenKeys : Nat → Surroundings → List (Node × Node) → Valuing (List TableKey)
  | 0, _, _ => throw .nestedTooDeeply
  | _ + 1, _, [] => return []
  | fuel + 1, around, (key, _) :: rest => do
      let taken ← nodeKey fuel around false key
      return taken.toList ++ (← takenKeys fuel around rest)

/-- Fields with those of a merged table, or of the tables of a list, added. -/
def mergedFields : Nat → Surroundings → Bool → Fields → Node → Valuing Fields
  | 0, _, _, _, _ => throw .nestedTooDeeply
  | fuel + 1, around, asText, fields, source =>
      match source with
      | .sequence items => mergedItems fuel around asText fields items
      | node => mergedItems fuel around asText fields [node]

/-- Fields with those of several merged tables added in order. -/
def mergedItems : Nat → Surroundings → Bool → Fields → List Node → Valuing Fields
  | 0, _, _, _, _ => throw .nestedTooDeeply
  | _ + 1, _, _, fields, [] => return fields
  | fuel + 1, around, asText, fields, node :: rest => do
      visit around
      match node with
      | .mapping pairs =>
          let more ← tableFields fuel around asText true fields pairs
          mergedItems fuel around asText more rest
      | .alias name target =>
          let (node, inside) ← enterAlias around name target
          visit inside
          match node with
          | .mapping pairs =>
              let more ← tableFields fuel inside asText true fields pairs
              mergedItems fuel around asText more rest
          | _ => throw .notATable
      | _ => throw .notATable

end

/-- The table of a document. A null document is an empty table. -/
def Tree.settings (tree : Tree) (fuel : Nat) : Valuing Settings := do
  let around : Surroundings := { anchored := tree.anchored }
  visit around
  match tree.root with
  | .mapping pairs =>
      visit around
      return (← tableFields fuel around true false {} pairs).settings
  | .scalar tag text =>
      match ← scalarValue tag text with
      | .null => return []
      | _ => throw .notATable
  | _ => throw .notATable

/-- The table that the first document of a text gives. A text without a document is an
empty table. -/
def read (text : Bytes) : Except SettingFlaw Settings := do
  match ← readTree text with
  | none => return []
  | some tree =>
      let fuel := (4 * text.length + 16) * (tree.anchored.length + 2)
      return (← (tree.settings fuel).run {}).1

end ClassAudit.Yaml
