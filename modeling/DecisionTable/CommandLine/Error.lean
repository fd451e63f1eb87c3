import DecisionTable.Key.Value
import DecisionTable.Error

/-!
# Errors of a command

Why a command fails: its table file cannot be read or is no table file, the table cannot be built or
queried, or the keys on the command line do not fit the table. `message` is for a reader; `record`
shows all parts.
-/

namespace DecisionTable.CommandLine

/-- Why the bytes of a file give no text. -/
inductive ReadFailure where
  /-- The system refused: its code, the kind of refusal and its words. -/
  | system (code : Nat) (kind message : String)
  /-- The bytes are not valid UTF-8. -/
  | notText
  deriving DecidableEq, Inhabited

namespace ReadFailure

/-- There is no such file. -/
def notFound : ReadFailure := .system 2 "NotFound" "No such file or directory"

/-- The file is a directory. -/
def isDirectory : ReadFailure := .system 21 "IsADirectory" "Is a directory"

def message : ReadFailure → String
  | .system code _ message => s!"{message} (os error {code})"
  | .notText => "stream did not contain valid UTF-8"

def record : ReadFailure → String
  | .system code kind message =>
    Text.record "Os"
      [("code", toString code), ("kind", kind), ("message", Text.quoted message)]
  | .notText =>
    Text.record "Error"
      [("kind", "InvalidData"), ("message", Text.quoted ReadFailure.notText.message)]

end ReadFailure

inductive CommandError where
  /-- The table file could not be read. -/
  | unreadable (path : String) (cause : ReadFailure)
  /-- The text of the file is no table file. -/
  | malformed (path : String)
  /-- Building or querying the table failed. -/
  | table (error : TableError)
  /-- The number of keys is not that of the columns. -/
  | keyCount (expected actual : Nat)
  /-- A key does not read as the type of its column. -/
  | invalidKey (column value : String) (expected : KeyType)
  deriving DecidableEq

namespace CommandError

def message : CommandError → String
  | .unreadable path cause => s!"failed to read {path}: {cause.message}"
  | .malformed path => s!"failed to parse {path}"
  | .table error => error.message
  | .keyCount expected actual => s!"expected {expected} keys, got {actual}"
  | .invalidKey column value expected =>
    s!"invalid key {Text.quoted value} for column '{column}': expected {expected.name}"

/-- The name of a key type in a record. -/
def typeRecord : KeyType → String
  | .bool => "Bool"
  | .integer => "Integer"
  | .text => "Text"
  | .any => "Any"

/-- The error with all its parts, as a diagnostic shows it. -/
def record : CommandError → String
  | .unreadable path cause =>
    Text.record "Read" [("path", Text.quoted path), ("source", cause.record)]
  | .malformed _ => "Parse"
  | .table error => "Index(" ++ error.record ++ ")"
  | .keyCount expected actual =>
    Text.record "KeyCount" [("expected", toString expected), ("actual", toString actual)]
  | .invalidKey column value expected =>
    Text.record "InvalidKey" [("column", Text.quoted column), ("value", Text.quoted value),
      ("expected", typeRecord expected)]

end CommandError

end DecisionTable.CommandLine
