import DecisionTable.Table.Builder

/-!
# Published tables

The table that readers currently see, and how many tables have been published so far. A rebuild
replaces the table only once the new one has been built as a whole; a failed rebuild changes
nothing. Every publication has a generation of its own, which identifies the published table: a
reader may hold one of an earlier generation and go on using it.
-/

namespace DecisionTable

structure PublishedTable (P : Type) where
  table : Table P
  generation : Nat := 1

namespace PublishedTable

variable {P : Type}

/-- Publishes a first table. -/
def new (table : Table P) : PublishedTable P := { table }

/-- Whether both are the very same publication. -/
def same (a b : PublishedTable P) : Bool := a.generation == b.generation

/-- Replaces the table. -/
def publish (current : PublishedTable P) (table : Table P) : Logged (PublishedTable P) := do
  let generation := current.generation + 1
  Logged.report { severity := .info, message :=
    s!"published lookup table generation {generation}" }
  return { table, generation }

variable [Payload P]

/-- Builds a table with a schema and configuration of its own, and publishes it. What is published
afterwards stands beside the outcome, which is the new generation. -/
def rebuildWith (current : PublishedTable P) (schema : Schema) (config : BuildConfig)
    (rows : List (Row P)) : Logged (Except TableError Nat × PublishedTable P) := do
  match ← Table.build schema config rows with
  | .ok table =>
    let next ← current.publish table
    return (.ok next.generation, next)
  | .error error =>
    Logged.report { severity := .warn, message :=
      s!"rebuild rejected, keeping generation {current.generation}: {error.message}" }
    return (.error error, current)

/-- Builds a table from other rows, with the current schema and configuration, and publishes it. -/
def rebuild (current : PublishedTable P) (rows : List (Row P)) :
    Logged (Except TableError Nat × PublishedTable P) :=
  current.rebuildWith current.table.schema current.table.config rows

end PublishedTable

end DecisionTable
