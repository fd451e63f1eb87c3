import DecisionTable.CommandLine.Error
import DecisionTable.TableFile
import DecisionTable.Table.Builder

/-!
# Loading table files

From the bytes of a file to a table file, and from that to a table. What reading the file gave, its
bytes or a failure, is passed in.
-/

namespace DecisionTable.CommandLine

/-- What reading a file gives. -/
abbrev FileContents := Except ReadFailure ByteArray

/-- The text of a file, unless it could not be read. -/
def textOf (contents : FileContents) : Except ReadFailure String := do
  match String.fromUTF8? (← contents) with
  | some text => return text
  | none => throw .notText

/-- Reads a table file, of which `path` is the name that is shown. -/
def load (path : String) (contents : FileContents) : Logged (Except CommandError TableFile) :=
  match textOf contents with
  | .error cause => return .error (.unreadable path cause)
  | .ok text =>
    match TableFile.parse? text with
    | none => return .error (.malformed path)
    | some file => do
      Logged.report { severity := .debug, message := "Loaded table file", fields :=
        [("path", path), ("rows", toString file.rows.length)] }
      return .ok file

/-- Builds the table of a table file. -/
def buildFile (file : TableFile) : Logged (Except CommandError (Table String)) := do
  return (← Table.build file.schema file.config file.rows).mapError .table

/-- Reads a table file and builds its table. -/
def loadTable (path : String) (contents : FileContents) :
    Logged (Except CommandError (Table String)) := do
  match ← load path contents with
  | .error error => return .error error
  | .ok file => buildFile file

end DecisionTable.CommandLine
