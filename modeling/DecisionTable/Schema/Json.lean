import DecisionTable.Key.Json
import DecisionTable.Schema.Basic
import DecisionTable.Schema.Config

/-!
# Schemas, rows and configurations in JSON

Each is a record. The type of a column, the policy, the payload of a row and both settings of a
configuration may be missing; only the payload may be null. The flag `emptyForNull` is that of
`Json.holdsNothing`.
-/

namespace DecisionTable

namespace Reach

def toJson : Reach → Json
  | .bounded => .text "bounded"
  | .openEnded => .text "open_ended"

def ofJson? (emptyForNull : Bool) (value : Json) : Option Reach := do
  let (name, content) ← value.variant?
  if !Json.holdsNothing emptyForNull content then none
  match name with
  | "bounded" => return .bounded
  | "open_ended" => return .openEnded
  | _ => none

end Reach

namespace Matching

def toJson : Matching → Json
  | .exact => .text "exact"
  | .range reach => .object [("range", reach.toJson)]

def ofJson? (emptyForNull : Bool) (value : Json) : Option Matching := do
  match ← value.variant? with
  | ("exact", content) => if Json.holdsNothing emptyForNull content then return .exact else none
  | ("range", some content) => return .range (← Reach.ofJson? emptyForNull content)
  | _ => none

end Matching

namespace Policy

def toJson : Policy → Json
  | .unique => .text "unique"
  | .multi => .text "multi"

def ofJson? (emptyForNull : Bool) (value : Json) : Option Policy := do
  let (name, content) ← value.variant?
  if !Json.holdsNothing emptyForNull content then none
  match name with
  | "unique" => return .unique
  | "multi" => return .multi
  | _ => none

/-- Reads a policy that may be missing. -/
def field? (emptyForNull : Bool) : Option Json → Option Policy
  | none => some .unique
  | some value => ofJson? emptyForNull value

end Policy

namespace Column

def toJson (column : Column) : Json :=
  .object [("name", .text column.name), ("type", column.type.toJson),
    ("match", column.matching.toJson)]

def ofJson? (emptyForNull : Bool) (value : Json) : Option Column :=
  match value.fields? ["name", "type", "match"] with
  | some [some name, type, some matching] => return {
      name := ← name.text?
      type := ← type.elim (some .any) (KeyType.ofJson? emptyForNull)
      matching := ← Matching.ofJson? emptyForNull matching }
  | _ => none

end Column

namespace Schema

/-- The members of a schema, as they also stand in a table file. -/
def members (schema : Schema) : List (String × Json) :=
  [("columns", .array (schema.columns.map Column.toJson)), ("policy", schema.policy.toJson)]

def toJson (schema : Schema) : Json :=
  .object schema.members

/-- Reads a schema from the values of its two fields. -/
def ofFields? (emptyForNull : Bool) (columns policy : Option Json) : Option Schema := do
  return {
    columns := ← (← columns).list? (Column.ofJson? emptyForNull)
    policy := ← Policy.field? emptyForNull policy }

def ofJson? (value : Json) : Option Schema :=
  match value.fields? ["columns", "policy"] with
  | some [columns, policy] => ofFields? false columns policy
  | _ => none

end Schema

namespace BuildConfig

def toJson (config : BuildConfig) : Json :=
  .object [("check_key_types", .bool config.checkKeyTypes),
    ("large_table_warning", .integer config.largeTableWarning)]

/-- Reads a configuration; the threshold is a 64-bit unsigned number. -/
def ofJson? (value : Json) : Option BuildConfig :=
  match value.fields? ["check_key_types", "large_table_warning"] with
  | some [checkKeyTypes, largeTableWarning] => return {
      checkKeyTypes := ← checkKeyTypes.elim (some true) Json.bool?
      largeTableWarning := ← largeTableWarning.elim (some 100000) (Json.natBelow? UInt64.size) }
  | _ => none

end BuildConfig

namespace Row

variable {P : Type}

def toJson (payload : P → Json) (row : Row P) : Json :=
  .object [("keys", .array (row.keys.map ColumnKey.toJson)),
    ("payload", Json.ofOption payload row.payload)]

def ofJson? (payload? : Json → Option P) (value : Json) : Option (Row P) :=
  match value.fields? ["keys", "payload"] with
  | some [some keys, payload] => return {
      keys := ← keys.list? ColumnKey.ofJson?
      payload := ← payload.elim (some none) (Json.nullable? payload?) }
  | _ => none

end Row

end DecisionTable
