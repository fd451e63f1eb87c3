import DecisionTable.CommandLine.KeyText
import DecisionTable.CommandLine.Load

/-!
# Querying a table file

Looks the keys of the command line up in the table of a file. All payloads are wanted, in ascending
order, or the only one, with or without a default for the case that there is none.
-/

namespace DecisionTable.CommandLine

/-- What a table answers to the keys of the command line. -/
def answer (table : Table String) (keys : List String) (all : Bool) (default : Option String) :
    Except CommandError (List String) := do
  let keys ← parseKeys table.schema keys
  if all then
    match ← (table.values keys).mapError .table with
    | [] => throw (.table .notFound)
    | values => return values
  else
    let result := match default with
      | some default => table.uniqueValueOr keys default
      | none => table.uniqueValue keys
    return [← result.mapError .table]

/-- Queries a table file. -/
def query (path : String) (contents : FileContents) (keys : List String) (all : Bool)
    (default : Option String) : Logged (Except CommandError (List String)) := do
  return (← loadTable path contents) >>= fun table => answer table keys all default

end DecisionTable.CommandLine
