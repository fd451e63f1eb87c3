import DecisionTable.Json.Decode
import DecisionTable.Text.Decimal
import DecisionTable.Key.Column

/-!
# Keys in JSON

A key value is written as the JSON value of its kind. An interval is a record of `from` and `to`,
both optional and nullable. A column key is whichever of the two the value reads as, in this order,
or null; since its kind is known only then, nothing inside it may be unreadable.
-/

namespace DecisionTable

namespace KeyValue

def toJson : KeyValue → Json
  | .bool b => .bool b
  | .integer n => .integer n.toInt
  | .text s => .text s

def ofJson? : Json → Option KeyValue
  | .bool b => some (.bool b)
  | .integer n => .integer <$> Text.toInt64? n
  | .text s => some (.text s)
  | _ => none

end KeyValue

namespace KeyType

def toJson (type : KeyType) : Json :=
  .text type.name

def ofName? (name : String) : Option KeyType :=
  all.find? fun type => type.name == name

/-- Reads a key type. See `Json.holdsNothing` for the flag. -/
def ofJson? (emptyForNull : Bool) (value : Json) : Option KeyType := do
  let (name, content) ← value.variant?
  if Json.holdsNothing emptyForNull content then ofName? name else none

end KeyType

namespace Interval

def toJson (i : Interval) : Json :=
  .object [("from", Json.ofOption KeyValue.toJson i.lower),
    ("to", Json.ofOption KeyValue.toJson i.upper)]

/-- Reads a bound that may be missing or null. -/
def bound? : Option Json → Option (Option KeyValue)
  | none => some none
  | some value => value.nullable? KeyValue.ofJson?

def ofJson? (value : Json) : Option Interval :=
  match value.fields? ["from", "to"] with
  | some [lower, upper] => return ⟨← bound? lower, ← bound? upper⟩
  | _ => none

end Interval

namespace ColumnKey

def toJson : ColumnKey → Json
  | .exact value => value.toJson
  | .range interval => interval.toJson
  | .any => .null

def ofJson? (value : Json) : Option ColumnKey :=
  if value.readable then
    match KeyValue.ofJson? value, Interval.ofJson? value, value with
    | some key, _, _ => some (.exact key)
    | none, some interval, _ => some (.range interval)
    | none, none, .null => some .any
    | _, _, _ => none
  else none

end ColumnKey

end DecisionTable
