import DecisionTable.Schema.Basic

/-!
# Checks against a schema

`Schema.validate` checks the schema itself, `validateRow` the keys of a row and `validateQuery` the
keys of a query. Each names the first column at fault. Keys are compared with the declared types
only where `checkTypes` is set.
-/

namespace DecisionTable.Schema

/-! ## The schema -/

/-- Checks the names of columns that follow columns with the names `seen`. -/
def validateNames (seen : List String) : List Column → Except TableError Unit
  | [] => return ()
  | column :: rest => do
    if column.name.isEmpty then throw (.invalidSchema "column name must not be empty")
    if seen.contains column.name then
      throw (.invalidSchema s!"duplicate column name: {column.name}")
    validateNames (column.name :: seen) rest

/-- Checks that the column names are non-empty and pairwise distinct. -/
def validate (schema : Schema) : Except TableError Unit :=
  validateNames [] schema.columns

/-- The schema with these columns, if it is valid. -/
def new (columns : List Column) (policy : Policy) : Except TableError Schema := do
  validate { columns, policy }
  return { columns, policy }

/-! ## Rows -/

/-- Checks a key against the declared type of its column. -/
def checkType (checkTypes : Bool) (position : Nat) (column : Column) (value : KeyValue) :
    Except TableError Unit :=
  if checkTypes && !column.type.accepts value then
    throw (.invalidKey position
      s!"column {column.name} expects {column.type.name}, got {value.display}" none)
  else return ()

/-- Checks an interval of a range column. -/
def checkInterval (checkTypes : Bool) (position : Nat) (column : Column) (reach : Reach)
    (interval : Interval) : Except TableError Unit := do
  if interval.isEmpty then
    throw (.invalidKey position s!"column {column.name}: empty interval {interval.display}" none)
  if reach == .bounded && !interval.isBounded then
    throw (.invalidKey position
      s!"column {column.name} requires bounded ranges, got {interval.display}" none)
  interval.lower.forM (checkType checkTypes position column)
  interval.upper.forM (checkType checkTypes position column)

/-- Checks the key of a row in one column. -/
def checkKey (checkTypes : Bool) (position : Nat) (column : Column) (key : ColumnKey) :
    Except TableError Unit :=
  match column.matching, key with
  | .exact, .exact value => checkType checkTypes position column value
  | .exact, .any => return ()
  | .exact, .range interval =>
    throw (.invalidKey position
      s!"column {column.name} matches exactly, got range {interval.display}" none)
  | .range reach, .range interval => checkInterval checkTypes position column reach interval
  | .range .openEnded, .any => return ()
  | .range .bounded, .any =>
    throw (.invalidKey position s!"column {column.name} requires bounded ranges, got *" none)
  | .range _, .exact value =>
    throw (.invalidKey position
      s!"column {column.name} matches ranges, got value {value.display}" none)

/-- Checks keys against columns, the first of which has the given position. -/
def checkKeys (checkTypes : Bool) (position : Nat) :
    List Column → List ColumnKey → Except TableError Unit
  | column :: columns, key :: keys => do
    checkKey checkTypes position column key
    checkKeys checkTypes (position + 1) columns keys
  | _, _ => return ()

/-- Checks the keys of a row. -/
def validateRow (schema : Schema) (keys : List ColumnKey) (checkTypes : Bool) :
    Except TableError Unit := do
  if keys.length ≠ schema.arity then
    throw (.invalidKey (min keys.length schema.arity)
      s!"row has {keys.length} keys, schema has {schema.arity} columns" none)
  checkKeys checkTypes 0 schema.columns keys

/-! ## Queries -/

/-- Checks the types of the keys of a query. -/
def checkQueryTypes : List Column → List KeyValue → Except TableError Unit
  | column :: columns, key :: keys => do
    if !column.type.accepts key then
      throw (.invalidQuery s!"column {column.name} expects {column.type.name}, got {key.display}")
    checkQueryTypes columns keys
  | _, _ => return ()

/-- Checks the keys of a query. -/
def validateQuery (schema : Schema) (keys : List KeyValue) (checkTypes : Bool) :
    Except TableError Unit := do
  if keys.length ≠ schema.arity then
    throw (.invalidQuery s!"query has {keys.length} keys, schema has {schema.arity} columns")
  if checkTypes then checkQueryTypes schema.columns keys

end DecisionTable.Schema
