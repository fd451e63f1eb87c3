import DecisionTable.Json.Basic
import DecisionTable.Text.Record
import DecisionTable.Tree.Shape

/-!
# Statistics

What a table consists of: the rows it was built from, the shape of its tree and the number of
distinct payloads. They are shown in three ways: as lines for a reader, as JSON, and as a record in
an event.
-/

namespace DecisionTable

structure TableStats where
  rows : Nat := 0
  exactNodes : Nat := 0
  rangeNodes : Nat := 0
  intervals : Nat := 0
  defaultBranches : Nat := 0
  uniqueLeaves : Nat := 0
  multiLeaves : Nat := 0
  payloads : Nat := 0
  maxDepth : Nat := 0
  deriving DecidableEq, Inhabited

namespace TableStats

/-- The statistics of a tree built from a number of rows. -/
def ofTree {P : Type} [Ord P] (rows : Nat) : Option (Tree P) → TableStats
  | none => { rows }
  | some tree =>
    let shape := tree.shape
    { rows
      exactNodes := shape.exactLevels
      rangeNodes := shape.rangeLevels
      intervals := shape.bands
      defaultBranches := shape.fallbacks
      uniqueLeaves := shape.uniqueLeaves
      multiLeaves := shape.multiLeaves
      payloads := tree.values.length
      maxDepth := shape.depth }

/-- The statistics as lines of text, without a last line break. -/
def display (stats : TableStats) : String :=
  s!"Rows:              {stats.rows}\n" ++
  s!"Exact nodes:       {stats.exactNodes}\n" ++
  s!"Range nodes:       {stats.rangeNodes}\n" ++
  s!"Intervals:         {stats.intervals}\n" ++
  s!"Default branches:  {stats.defaultBranches}\n" ++
  s!"Unique leaves:     {stats.uniqueLeaves}\n" ++
  s!"Multi leaves:      {stats.multiLeaves}\n" ++
  s!"Distinct payloads: {stats.payloads}\n" ++
  s!"Depth:             {stats.maxDepth}"

/-- The numbers and their names, in the order in which they are written. -/
def parts (stats : TableStats) : List (String × Nat) :=
  [("rows", stats.rows), ("exact_nodes", stats.exactNodes), ("range_nodes", stats.rangeNodes),
    ("intervals", stats.intervals), ("default_branches", stats.defaultBranches),
    ("unique_leaves", stats.uniqueLeaves), ("multi_leaves", stats.multiLeaves),
    ("payloads", stats.payloads), ("max_depth", stats.maxDepth)]

def toJson (stats : TableStats) : Json :=
  .object (stats.parts.map fun (name, count) => (name, .integer count))

/-- The statistics as a record. -/
def record (stats : TableStats) : String :=
  Text.record "TableStats" (stats.parts.map fun (name, count) => (name, toString count))

end TableStats

end DecisionTable
