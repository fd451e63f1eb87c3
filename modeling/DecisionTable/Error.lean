import DecisionTable.Text.Record

/-!
# Errors

What can go wrong when a table is built or queried. An error outlives the tree it came from, so it
holds rendered text: the key path, payloads and intervals as they are shown to a reader. Errors of a
build carry the number of the row that was being inserted, once it is known; `atRow` fills it in.
-/

namespace DecisionTable

inductive TableError where
  /-- Two rows resolve to one full key path of a table with unique results. -/
  | uniqueKeyViolation (path existing incoming : String) (existingRow incomingRow : Option Nat)
  /-- An interval overlaps another one at the same position without being identical. -/
  | overlappingRange (path existing incoming : String) (row : Option Nat)
  /-- A position resolves to structures of two kinds. -/
  | inconsistentLeafKind (path existing incoming : String) (row : Option Nat)
  /-- A row has no payload where one is required. -/
  | invalidResult (message : String) (row : Option Nat)
  /-- A key of a row does not fit its column. -/
  | invalidKey (column : Nat) (message : String) (row : Option Nat)
  /-- The schema itself is malformed. -/
  | invalidSchema (message : String)
  /-- More than one payload matches where one is wanted. -/
  | ambiguousResult (count : Nat)
  /-- No payload matches. -/
  | notFound
  /-- The keys of a query do not fit the schema. -/
  | invalidQuery (message : String)
  deriving DecidableEq, Repr

namespace TableError

/-! ## Wording -/

/-- A row number in a message; a question mark while it is unknown. -/
def rowText : Option Nat → String
  | none => "?"
  | some row => toString row

def message : TableError → String
  | .uniqueKeyViolation path existing incoming existingRow incomingRow =>
    s!"unique key violation at {path}: {existing} (row {rowText existingRow}) conflicts with "
      ++ s!"{incoming} (row {rowText incomingRow})"
  | .overlappingRange path existing incoming row =>
    s!"overlapping range at {path} (row {rowText row}): {incoming} overlaps {existing}"
  | .inconsistentLeafKind path existing incoming row =>
    s!"inconsistent structure at {path} (row {rowText row}): "
      ++ s!"cannot merge {incoming} into {existing}"
  | .invalidResult message row => s!"invalid result (row {rowText row}): {message}"
  | .invalidKey column message row =>
    s!"invalid key in column {column} (row {rowText row}): {message}"
  | .invalidSchema message => s!"invalid schema: {message}"
  | .ambiguousResult count => s!"ambiguous result: {count} payloads match"
  | .notFound => "no matching payload"
  | .invalidQuery message => s!"invalid query: {message}"

/-- The name of the kind of error. -/
def kind : TableError → String
  | .uniqueKeyViolation .. => "UniqueKeyViolation"
  | .overlappingRange .. => "OverlappingRange"
  | .inconsistentLeafKind .. => "InconsistentLeafKind"
  | .invalidResult .. => "InvalidResult"
  | .invalidKey .. => "InvalidKey"
  | .invalidSchema .. => "InvalidSchema"
  | .ambiguousResult .. => "AmbiguousResult"
  | .notFound => "NotFound"
  | .invalidQuery .. => "InvalidQuery"

/-- The parts of an error, for a diagnostic that shows all of them. -/
def parts : TableError → List (String × String)
  | .uniqueKeyViolation path existing incoming existingRow incomingRow =>
    [("path", Text.quoted path), ("existing", Text.quoted existing),
      ("incoming", Text.quoted incoming),
      ("existing_row", Text.optional (existingRow.map toString)),
      ("incoming_row", Text.optional (incomingRow.map toString))]
  | .overlappingRange path existing incoming row
  | .inconsistentLeafKind path existing incoming row =>
    [("path", Text.quoted path), ("existing", Text.quoted existing),
      ("incoming", Text.quoted incoming), ("row", Text.optional (row.map toString))]
  | .invalidResult message row =>
    [("message", Text.quoted message), ("row", Text.optional (row.map toString))]
  | .invalidKey column message row =>
    [("column", toString column), ("message", Text.quoted message),
      ("row", Text.optional (row.map toString))]
  | .invalidSchema message | .invalidQuery message => [("message", Text.quoted message)]
  | .ambiguousResult count => [("count", toString count)]
  | .notFound => []

/-- The error with all its parts, as a diagnostic shows it. -/
def record (error : TableError) : String :=
  Text.record error.kind error.parts

/-! ## Rows -/

/-- Fills in the number of the row being inserted, unless one is known already. For a violation of
uniqueness that is the incoming row. -/
def atRow (position : Nat) : TableError → TableError
  | .uniqueKeyViolation path existing incoming existingRow incomingRow =>
    .uniqueKeyViolation path existing incoming existingRow (incomingRow.or (some position))
  | .overlappingRange path existing incoming row =>
    .overlappingRange path existing incoming (row.or (some position))
  | .inconsistentLeafKind path existing incoming row =>
    .inconsistentLeafKind path existing incoming (row.or (some position))
  | .invalidResult message row => .invalidResult message (row.or (some position))
  | .invalidKey column message row => .invalidKey column message (row.or (some position))
  | error => error

/-! ## Classes -/

/-- Whether the error aborts a build. -/
def isBuildError : TableError → Bool
  | .uniqueKeyViolation .. | .overlappingRange .. | .inconsistentLeafKind .. | .invalidResult ..
  | .invalidKey .. | .invalidSchema .. => true
  | .ambiguousResult .. | .notFound | .invalidQuery .. => false

/-- Whether the error concerns one query only. -/
def isQueryError (error : TableError) : Bool :=
  !error.isBuildError

end TableError

end DecisionTable
