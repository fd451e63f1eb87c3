import DecisionTable.Schema.Basic
import DecisionTable.Tree.Merge

/-!
# The chain of a row

A single row becomes a tree with one level per column, each with one child, above one leaf. The
levels are made from the last column to the first. A key that does not fit its column has no chain;
`Schema.validateRow` rules that out beforehand.
-/

namespace DecisionTable

/-- Runs a merge at a path of its own. -/
def Merging.runAt {α : Type} (path : KeyPath) (act : Merging α) : Except TableError α :=
  match act path with
  | .ok a _ => .ok a
  | .error e _ => .error e

namespace Tree

variable {P : Type} [Payload P]

/-- The leaf of a row. Under the unique policy a payload is required. -/
def leaf (policy : Policy) (payload : Option P) (position : Nat) : Except TableError (Tree P) :=
  match policy with
  | .unique => uniqueLeaf payload (some position)
  | .multi => return multiLeaf payload.toList

/-- An exact level with one child. -/
def exactOf (fill : Filling (ExactLevel (Tree P)) Unit) : Except TableError (Tree P) :=
  (.exact <$> Filling.into .empty fill : Merging (Tree P)).runAt .root

/-- A range level with one band. -/
def rangeOf (fill : Filling (RangeLevel (Tree P)) Unit) : Except TableError (Tree P) :=
  (.range <$> Filling.into .empty fill : Merging (Tree P)).runAt .root

/-- The level of one column, above the tree of the columns after it. On a range column a catch-all
key is the interval of all keys. -/
def wrap (index : Nat) (column : Column) (key : ColumnKey) (below : Tree P) :
    Except TableError (Tree P) :=
  let meet (existing : Tree P) := existing.merge below
  match column.matching, key with
  | .exact, .exact value => exactOf (ExactLevel.insert meet value below)
  | .exact, .any => exactOf (ExactLevel.insertFallback meet below)
  | .range _, .range interval => rangeOf (RangeLevel.insert empty meet interval below)
  | .range _, .any => rangeOf (RangeLevel.insert empty meet Interval.unbounded below)
  | _, key =>
    throw (.invalidKey index s!"key {key.display} does not match column {column.name}" none)

/-- The levels of the columns from `index` on, above a leaf. -/
def wrapAll (index : Nat) : List Column → List ColumnKey → Tree P → Except TableError (Tree P)
  | column :: columns, key :: keys, leaf => do
    wrap index column key (← wrapAll (index + 1) columns keys leaf)
  | _, _, leaf => return leaf

/-- The tree of a single row. -/
def chain (schema : Schema) (row : Row P) (position : Nat) : Except TableError (Tree P) := do
  wrapAll 0 schema.columns row.keys (← leaf schema.policy row.payload position)

end Tree

end DecisionTable
