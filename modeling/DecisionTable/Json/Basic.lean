/-!
# JSON values

A JSON text is read into a value of `Json`. Members of an object keep their order and may repeat a
name. Two constructors stand for text that is in order but says less than it seems to:

* `fraction` : a number written with a fraction part or an exponent, or minus zero. No field of a
  table takes one, so what it amounts to is not kept.
* `unreadable` : a text that is no value, though its grammar is in order: a number beyond the range
  of double precision, a string with half a surrogate pair, an object with such a name, or an array
  or object nested too deeply. A reader that skips a value may skip one of these; `readable` tells
  whether a value is free of them.
-/

namespace DecisionTable

inductive Json where
  | null
  | bool (b : Bool)
  | integer (n : Int)
  | fraction
  | text (s : String)
  | array (items : List Json)
  | object (members : List (String × Json))
  | unreadable

namespace Json

mutual

/-- Whether nothing in the value is unreadable. -/
def readable : Json → Bool
  | .array items => allReadable items
  | .object members => membersReadable members
  | .unreadable => false
  | _ => true

def allReadable : List Json → Bool
  | [] => true
  | item :: rest => item.readable && allReadable rest

def membersReadable : List (String × Json) → Bool
  | [] => true
  | (_, value) :: rest => value.readable && membersReadable rest

end

/-- A value that may be absent, absence being written as null. -/
def ofOption {α : Type} (toJson : α → Json) : Option α → Json
  | none => .null
  | some a => toJson a

end Json

end DecisionTable
