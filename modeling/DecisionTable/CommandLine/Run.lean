import DecisionTable.CommandLine.Arguments
import DecisionTable.CommandLine.Inspection
import DecisionTable.CommandLine.Query
import DecisionTable.CommandLine.Verification

/-!
# Running the program

What a run of the program prints and the code that it exits with. The contents of a file are asked
for by its name. A failing command prints the error with all its parts and exits with 1; arguments
that fit no command exit with 2.
-/

namespace DecisionTable.CommandLine

structure Outcome where
  exitCode : Nat := 0
  stdout : String := ""
  stderr : String := ""
  deriving DecidableEq, Inhabited

namespace Outcome

/-- Prints lines and succeeds. -/
def ofLines (lines : List String) : Outcome :=
  { stdout := String.join (lines.map (· ++ "\n")) }

/-- Fails with an error, after some output. -/
def failed (stdout error : String) : Outcome :=
  { exitCode := 1, stdout, stderr := s!"Error: {error}\n" }

end Outcome

/-- The version of the program. -/
def programVersion : String := "0.3.0"

/-- What the program says about its use. -/
def usageText : String :=
  "Usage: decitab [--verbose] <inspect|verify|query|version> [ARGUMENTS]\n"

/-- What inspecting a file prints. -/
def runInspect (file format : String) (contents : FileContents) : Logged Outcome := do
  match ← inspect file contents with
  | .error error => return .failed "" error.record
  | .ok inspection =>
    if format = "json" then return .ofLines [inspection.toJson.pretty]
    return .ofLines inspection.lines

/-- What verifying a file prints. -/
def runVerify (file : String) (contents : FileContents) : Logged Outcome := do
  let heading := s!"Verifying table at {Text.quoted file}\n\n"
  match ← verify file contents with
  | .error error => return .failed heading error.record
  | .ok verification =>
    let checked := heading ++ s!"Rows checked: {verification.rowsChecked}\n\n"
    match verification.violation with
    | none => return { stdout := checked ++ "✓ Table verification passed\n" }
    | some error =>
      return .failed (checked ++ s!"  {error.message}\n✗ Table verification failed\n")
        (Text.quoted "Verification failed")

/-- What querying a file prints. -/
def runQuery (file : String) (keys : List String) (all : Bool) (default : Option String)
    (contents : FileContents) : Logged Outcome := do
  match ← query file contents keys all default with
  | .error error => return .failed "" error.record
  | .ok values => return .ofLines values

/-- Runs a command. -/
def Command.run (files : String → FileContents) : Command → Logged Outcome
  | .inspect file format => runInspect file format (files file)
  | .verify file => runVerify file (files file)
  | .query file keys all default => runQuery file keys all default (files file)
  | .version =>
    return .ofLines [s!"decitab CLI v{programVersion}", s!"decitab Core v{programVersion}"]

/-- What the program prints where the arguments start no command. -/
def Stop.outcome : Stop → Outcome
  | .usage => { exitCode := 2, stderr := usageText }
  | .help => { stdout := usageText }
  | .version => .ofLines [s!"decitab {programVersion}"]

/-- The lines of a log. Without `verbose` the events for debugging are left out. -/
def logLines (verbose : Bool) (events : List Event) : List String :=
  (events.filter fun event => verbose || event.severity != .debug).map fun event =>
    " ".intercalate (event.severity.name :: event.message ::
      event.fields.map fun (name, value) => s!"{name}={value}")

/-- Runs the program. -/
def run (args : List String) (files : String → FileContents) : Logged Outcome :=
  match parse args with
  | .ok invocation => invocation.command.run files
  | .error stop => return stop.outcome

end DecisionTable.CommandLine
