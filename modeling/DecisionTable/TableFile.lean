import DecisionTable.Json.Reader
import DecisionTable.Json.Printer
import DecisionTable.Schema.Json

/-!
# Table files

A table file is a JSON object that holds the fields of a schema, an optional build configuration and
the rows, whose payloads are texts. The fields of the schema are told apart from others only after
the whole object has been read, so nothing outside the configuration and the rows may be unreadable,
not even in a member that is skipped.
-/

namespace DecisionTable

structure TableFile where
  schema : Schema
  config : BuildConfig := {}
  rows : List (Row String)
  deriving DecidableEq, Inhabited

namespace TableFile

def toJson (file : TableFile) : Json :=
  .object (file.schema.members ++ [("config", file.config.toJson),
    ("rows", .array (file.rows.map (Row.toJson Json.text)))])

def ofJson? : Json → Option TableFile
  | .object members => do
    let schemaMembers := members.filter fun (name, _) => name != "config" && name != "rows"
    if !Json.membersReadable schemaMembers then none
    let config ← Json.member? members "config"
    let rows ← Json.member? members "rows"
    let columns ← Json.member? schemaMembers "columns"
    let policy ← Json.member? schemaMembers "policy"
    return {
      schema := ← Schema.ofFields? true columns policy
      config := ← config.elim (some {}) BuildConfig.ofJson?
      rows := ← (← rows).list? (Row.ofJson? Json.text?) }
  | _ => none

/-- The text of a table file. -/
def render (file : TableFile) : String :=
  file.toJson.pretty

/-- Reads the text of a table file. -/
def parse? (text : String) : Option TableFile :=
  Json.parse? text >>= ofJson?

end TableFile

end DecisionTable
