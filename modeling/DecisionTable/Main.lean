import DecisionTable.CommandLine.Run

/-!
# The program

Reads the file that the arguments name, runs the command on it, and prints what it prints. The log
goes to standard error, before the output of the command.
-/

namespace DecisionTable.CommandLine

/-- The cause of a failure to read a file. -/
def ReadFailure.ofError : IO.Error → ReadFailure
  | .noFileOrDirectory .. => .notFound
  | .permissionDenied _ code _ => .system code.toNat "PermissionDenied" "Permission denied"
  | .inappropriateType .. => .isDirectory
  | error => .system 5 "Uncategorized" error.toString

/-- Reads a file as a whole. -/
def readContents (path : String) : IO FileContents := do
  try return .ok (← IO.FS.readBinFile path)
  catch error => return .error (.ofError error)

/-- Runs the program on its arguments, and gives its exit code. -/
def runProgram (args : List String) : IO UInt32 := do
  let invocation? := (parse args).toOption
  let contents ← match invocation? >>= fun invocation => invocation.command.file? with
    | some file => readContents file
    | none => pure (.error .notFound)
  let result := run args fun _ => contents
  for line in logLines (invocation?.any Invocation.verbose) result.events do
    IO.eprintln line
  IO.print result.value.stdout
  IO.eprint result.value.stderr
  return result.value.exitCode.toUInt32

end DecisionTable.CommandLine

def main (args : List String) : IO UInt32 :=
  DecisionTable.CommandLine.runProgram args
