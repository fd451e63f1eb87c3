import DecisionTable.Schema.Check
import DecisionTable.Schema.Config
import DecisionTable.Table.Stats
import DecisionTable.Tree.Lookup

/-!
# Lookup tables

A table is built once and then only read. A query gives one key per column and is checked against
the schema; a lookup from the root takes any number of keys and is not.
-/

namespace DecisionTable

structure Table (P : Type) where
  schema : Schema
  config : BuildConfig := {}
  root : Option (Tree P) := none
  rows : Nat := 0

namespace Table

variable {P : Type}

/-- The table without rows. -/
def empty (schema : Schema) : Table P := { schema }

/-- Whether the table was built from no rows. -/
def isEmpty (table : Table P) : Bool := table.root.isNone

/-- The position at the root. -/
def rootLookup (table : Table P) : Lookup P := ⟨table.root⟩

/-- The position that a full tuple of keys leads to. -/
def lookup (table : Table P) (keys : List KeyValue) : Except TableError (Lookup P) := do
  table.schema.validateQuery keys table.config.checkKeyTypes
  return table.rootLookup.descendAll keys

variable [Ord P]

/-- The set of payloads that match the keys. -/
def values (table : Table P) (keys : List KeyValue) : Except TableError (List P) :=
  Lookup.values <$> table.lookup keys

/-- The payload that matches the keys, if there is exactly one. -/
def uniqueValue (table : Table P) (keys : List KeyValue) : Except TableError P :=
  table.lookup keys >>= Lookup.uniqueValue

/-- The payload that matches the keys, if there is exactly one, and a default if there is none. -/
def uniqueValueOr (table : Table P) (keys : List KeyValue) (default : P) : Except TableError P :=
  table.lookup keys >>= Lookup.uniqueValueOr default

/-- What the table consists of. -/
def stats (table : Table P) : TableStats :=
  TableStats.ofTree table.rows table.root

end Table

end DecisionTable
