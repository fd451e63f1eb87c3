import DecisionTable.CommandLine.Load

/-!
# Inspecting a table file

What a table file defines: its policy, its columns and the statistics of its table, shown as text or
as JSON.
-/

namespace DecisionTable.CommandLine

/-- A column as it is described to a reader. -/
structure ColumnDescription where
  name : String
  keyType : String
  matching : String
  deriving DecidableEq, Inhabited

structure Inspection where
  path : String
  policy : Policy
  columns : List ColumnDescription
  stats : TableStats
  deriving DecidableEq, Inhabited

/-- The words for a way of matching. -/
def describeMatching : Matching → String
  | .exact => "exact"
  | .range .bounded => "range"
  | .range .openEnded => "open range"

namespace Inspection

/-- Describes a table. -/
def ofTable (path : String) (table : Table String) : Inspection where
  path := path
  policy := table.schema.policy
  columns := table.schema.columns.map fun column =>
    { name := column.name, keyType := column.type.name
      matching := describeMatching column.matching }
  stats := table.stats

def toJson (inspection : Inspection) : Json :=
  .object [("path", .text inspection.path), ("policy", inspection.policy.toJson),
    ("columns", .array (inspection.columns.map fun column =>
      .object [("name", .text column.name), ("key_type", .text column.keyType),
        ("matching", .text column.matching)])),
    ("stats", inspection.stats.toJson)]

/-- The lines of the text form. -/
def lines (inspection : Inspection) : List String :=
  ["decitab Table Inspection", "========================", "",
    s!"Path:   {inspection.path}", s!"Policy: {inspection.policy.display}", "", "Columns:"]
  ++ inspection.columns.mapIdx (fun index column =>
    s!"  [{index}] {column.name} ({column.keyType}, {column.matching})")
  ++ ["", inspection.stats.display]

end Inspection

/-- Inspects a table file. -/
def inspect (path : String) (contents : FileContents) :
    Logged (Except CommandError Inspection) := do
  return (← loadTable path contents).map (Inspection.ofTable path)

end DecisionTable.CommandLine
