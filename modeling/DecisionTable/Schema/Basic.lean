import DecisionTable.Key.Column

/-!
# Schemas and rows

A schema lists the key columns of a table in lookup order and says what a full key path resolves to.
A row gives one key per column and a payload, which may be missing.
-/

namespace DecisionTable

/-- How far the intervals of a range column may reach. -/
inductive Reach where
  /-- Both bounds are required. -/
  | bounded
  /-- Either bound may be missing. -/
  | openEnded
  deriving DecidableEq, Inhabited

/-- How the keys of a column are matched. -/
inductive Matching where
  /-- By equality. -/
  | exact
  /-- By containment in an interval. -/
  | range (reach : Reach)
  deriving DecidableEq, Inhabited

structure Column where
  name : String
  type : KeyType := .any
  matching : Matching
  deriving DecidableEq, Inhabited

/-- What a full key path resolves to. -/
inductive Policy where
  /-- One payload; a second row with the same keys fails the build. -/
  | unique
  /-- Any number of payloads; rows with the same keys add up. -/
  | multi
  deriving DecidableEq, Inhabited

structure Schema where
  columns : List Column
  policy : Policy := .unique
  deriving DecidableEq, Inhabited

structure Row (P : Type) where
  keys : List ColumnKey
  payload : Option P := none
  deriving DecidableEq, Inhabited

namespace Column

/-- A column that is matched exactly. -/
def exact (name : String) : Column := { name, matching := .exact }

/-- A range column that requires both bounds. -/
def range (name : String) : Column := { name, matching := .range .bounded }

/-- A range column whose intervals may be open. -/
def openRange (name : String) : Column := { name, matching := .range .openEnded }

/-- The column, declared by another type. -/
def withType (column : Column) (type : KeyType) : Column := { column with type }

end Column

/-- The name of a policy as a diagnostic shows it. -/
def Policy.display : Policy → String
  | .unique => "Unique"
  | .multi => "Multi"

/-- The number of key columns. -/
def Schema.arity (schema : Schema) : Nat := schema.columns.length

/-- The column names in lookup order. -/
def Schema.columnNames (schema : Schema) : List String :=
  schema.columns.map Column.name

end DecisionTable
