import DecisionTable.CommandLine.Error
import DecisionTable.Schema.Basic
import DecisionTable.Text.Decimal

/-!
# Keys on the command line

A key is given as text and read as the type of its column. In a column of type `any` it is the first
of integer, truth value and text that it reads as.
-/

namespace DecisionTable.CommandLine

/-- A truth value is written by its name. -/
def readBool : String → Option Bool
  | "true" => some true
  | "false" => some false
  | _ => none

/-- Reads the text of a key of some type. -/
def readKey (type : KeyType) (raw : String) : Option KeyValue :=
  match type with
  | .integer => KeyValue.integer <$> Text.readInt64 raw
  | .bool => KeyValue.bool <$> readBool raw
  | .text => some (.text raw)
  | .any =>
    (KeyValue.integer <$> Text.readInt64 raw).or
      ((KeyValue.bool <$> readBool raw).or (some (.text raw)))

/-- Reads the text of the key in a column. -/
def parseKey (column : Column) (raw : String) : Except CommandError KeyValue :=
  match readKey column.type raw with
  | some key => return key
  | none => throw (.invalidKey column.name raw column.type)

/-- Reads one key per column. The first column at fault is named. -/
def parseKeys (schema : Schema) (raw : List String) : Except CommandError (List KeyValue) := do
  if raw.length ≠ schema.arity then throw (.keyCount schema.arity raw.length)
  (schema.columns.zip raw).mapM fun (column, raw) => parseKey column raw

end DecisionTable.CommandLine
