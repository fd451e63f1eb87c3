import DecisionTable.Json.Basic

/-!
# Records, variants and lists in JSON

How typed values stand in JSON:

* a record is an object with one member per field, or an array of its fields in order, of which the
  last ones may be missing. Members with other names are skipped; a field may not be repeated;
* a variant is its name alone, or an object whose one member carries what the variant holds;
* a list is an array.
-/

namespace DecisionTable.Json

/-- The value of the member called `name`: none if it is missing, and a failure if it is
repeated. -/
def member? (members : List (String × Json)) (name : String) : Option (Option Json) :=
  match members.filter fun member => member.1 == name with
  | [] => some none
  | [member] => some (some member.2)
  | _ => none

/-- The fields of a record, one for each of `names`. -/
def fields? (names : List String) : Json → Option (List (Option Json))
  | .object members => names.mapM (member? members)
  | .array items =>
    if items.length ≤ names.length then
      some (items.map some ++ List.replicate (names.length - items.length) none)
    else none
  | _ => none

/-- The name of a variant and what it holds, if anything is written. -/
def variant? : Json → Option (String × Option Json)
  | .text name => some (name, none)
  | .object [(name, content)] => some (name, some content)
  | _ => none

/-- Whether a variant that holds nothing may be written with this content. Where
`emptyForNull` is set, an empty object stands for null. -/
def holdsNothing (emptyForNull : Bool) : Option Json → Bool
  | none | some .null => true
  | some (.object []) => emptyForNull
  | _ => false

/-- The items of an array. -/
def items? : Json → Option (List Json)
  | .array items => some items
  | _ => none

/-- A list, every item read by `read`. -/
def list? {α : Type} (read : Json → Option α) (value : Json) : Option (List α) :=
  value.items? >>= List.mapM read

/-- A value that may be null. -/
def nullable? {α : Type} (read : Json → Option α) : Json → Option (Option α)
  | .null => some none
  | value => some <$> read value

def bool? : Json → Option Bool
  | .bool b => some b
  | _ => none

def text? : Json → Option String
  | .text s => some s
  | _ => none

def integer? : Json → Option Int
  | .integer n => some n
  | _ => none

/-- A natural number below `bound`. -/
def natBelow? (bound : Nat) : Json → Option Nat
  | .integer (.ofNat n) => if n < bound then some n else none
  | _ => none

end DecisionTable.Json
