import ClassAudit.Rule.Catalog

/-!
# Tables

Rows of cells in aligned columns, and the table of the rule catalog.
-/

set_option autoImplicit false

namespace ClassAudit

/-- A text filled up with spaces to a width. A longer text stays as it is. -/
def padTo (width : Nat) (text : Bytes) : Bytes :=
  text ++ List.replicate (width - text.length) 0x20

/-- The width of the longest text. -/
def widest (texts : List Bytes) : Nat := (texts.map List.length).foldl max 0

/-- The rows of a table with three columns as lines. Each of the first two columns is two
spaces wider than its widest cell. -/
def tableText (rows : List (Bytes × Bytes × Bytes)) : Bytes :=
  let first := widest (rows.map fun (cell, _, _) => cell)
  let second := widest (rows.map fun (_, cell, _) => cell)
  rows.flatMap fun (left, middle, right) =>
    padTo (first + 2) left ++ padTo (second + 2) middle ++ right ++ "\n"

/-- The table of the rule catalog. -/
def catalogTable : Bytes :=
  let heading : Bytes × Bytes × Bytes := ("KEY", "NAME", "DESCRIPTION")
  tableText (heading :: RuleKind.catalog.map fun kind => (kind.key, kind.name, kind.description))

end ClassAudit
