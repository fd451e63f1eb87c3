import DecisionTable.Event
import DecisionTable.Table.Basic
import DecisionTable.Tree.Chain

/-!
# Building tables

A builder takes rows one at a time and merges the chain of each into the tree of those before it.
The first row that cannot be inserted spoils the builder: the tree is dropped, the error is kept,
and every later call gives that error again. So a build succeeds as a whole or not at all.

* `Builder.start`, `push`, `extend`, `finish` : the life of a builder;
* `Table.build` : all of it at once.
-/

namespace DecisionTable

structure Builder (P : Type) where
  schema : Schema
  config : BuildConfig
  root : Option (Tree P) := none
  /-- The number of rows accepted so far. -/
  rows : Nat := 0
  failure : Option TableError := none

namespace Builder

variable {P : Type}

/-- A builder without rows, for a valid schema. -/
def start (schema : Schema) (config : BuildConfig) : Logged (Except TableError (Builder P)) :=
  match schema.validate with
  | .error error => return .error error
  | .ok () => do
    Logged.report { severity := .debug, message := "starting lookup table build", fields :=
      [("columns", toString schema.arity), ("policy", schema.policy.display)] }
    return .ok { schema, config }

variable [Payload P]

/-- The tree of the builder with one row more. -/
def grow (builder : Builder P) (row : Row P) : Except TableError (Tree P) := do
  builder.schema.validateRow row.keys builder.config.checkKeyTypes
  let chain ← Tree.chain builder.schema row builder.rows
  match builder.root with
  | none => return chain
  | some root => (root.merge chain).runAt (KeyPath.forColumns builder.schema.columnNames)

/-- Inserts one row. -/
def push (builder : Builder P) (row : Row P) : Logged (Except TableError Unit × Builder P) :=
  match builder.failure with
  | some error => return (.error error, builder)
  | none =>
    match builder.grow row with
    | .ok root => return (.ok (), { builder with root := some root, rows := builder.rows + 1 })
    | .error cause => do
      let error := cause.atRow builder.rows
      Logged.report { severity := .debug, message :=
        s!"rejected row {builder.rows}: {error.message}" }
      return (.error error, { builder with root := none, failure := some error })

/-- Inserts rows up to the first that fails. -/
def extend (builder : Builder P) : List (Row P) → Logged (Except TableError Unit × Builder P)
  | [] => return (.ok (), builder)
  | row :: rows => do
    match ← builder.push row with
    | (.ok (), builder) => builder.extend rows
    | (.error error, builder) => return (.error error, builder)

/-- The finished table, unless a row failed. -/
def finish (builder : Builder P) : Logged (Except TableError (Table P)) :=
  match builder.failure with
  | some error => return .error error
  | none => do
    if builder.rows > builder.config.largeTableWarning then
      Logged.report { severity := .warn, message := s!"built lookup table from {builder.rows} rows "
        ++ s!"(warning threshold {builder.config.largeTableWarning})" }
    let table : Table P :=
      { schema := builder.schema, config := builder.config, root := builder.root
        rows := builder.rows }
    let stats := table.stats
    Logged.report { severity := .debug, message := "lookup table built", fields :=
      [("rows", toString stats.rows), ("exact_nodes", toString stats.exactNodes),
        ("range_nodes", toString stats.rangeNodes),
        ("leaves", toString (stats.uniqueLeaves + stats.multiLeaves))] }
    return .ok table

end Builder

/-- Builds a table from rows. -/
def Table.build {P : Type} [Payload P] (schema : Schema) (config : BuildConfig)
    (rows : List (Row P)) : Logged (Except TableError (Table P)) := do
  match ← Builder.start schema config with
  | .error error => return .error error
  | .ok builder =>
    match ← builder.extend rows with
    | (.error error, _) => return .error error
    | (.ok (), builder) => builder.finish

end DecisionTable
