import DecisionTable.CommandLine.Load

/-!
# Verifying a table file

Whether the rows of a table file make a table, and the first violation if they do not. A file that
cannot be read is an error of the command, not a violation.
-/

namespace DecisionTable.CommandLine

structure Verification where
  rowsChecked : Nat
  violation : Option CommandError
  deriving DecidableEq

/-- Verifies a table file. -/
def verify (path : String) (contents : FileContents) :
    Logged (Except CommandError Verification) := do
  match ← load path contents with
  | .error error => return .error error
  | .ok file =>
    let violation ← match ← buildFile file with
      | .ok table => do
        Logged.report { severity := .debug, message := "Table verified", fields :=
          [("stats", table.stats.record)] }
        pure none
      | .error error => pure (some error)
    Logged.report { severity := .debug, message := "Verification finished", fields :=
      [("ok", toString violation.isNone)] }
    return .ok { rowsChecked := file.rows.length, violation }

end DecisionTable.CommandLine
