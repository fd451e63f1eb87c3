import DecisionTable.Json.Text
import DecisionTable.Json.Number

/-!
# Reading JSON text

`Json.parse?` reads a whole text as one value between blanks. Reading goes by recursive descent.
Every third call at the latest takes a character of the text, which bounds the depth of calls and
gives the fuel.
-/

namespace DecisionTable.Json

/-- The characters that may stand between the parts of a JSON text. -/
def isBlank (c : Char) : Bool :=
  c = ' ' || c = '\n' || c = '\t' || c = '\r'

def skipBlanks (cs : List Char) : List Char :=
  cs.dropWhile isBlank

/-- How many arrays and objects may lie inside one another. -/
def maxDepth : Nat := 127

/-- An array or object that lies inside `depth` others. -/
def nested (depth : Nat) (value : Json) : Json :=
  if depth < maxDepth then value else .unreadable

/-- A string at the front of the text, after its opening quote; it has no text if half a surrogate
pair stands in it. -/
def readText (cs : List Char) : Option (Option String × List Char) := do
  let (units, rest) ← scanText cs
  return ((joinHalves units).map String.ofList, rest)

/-- An object from its members. One unreadable name makes it unreadable. -/
def ofMembers (members : List (Option String × Json)) : Json :=
  match members.mapM fun (name, value) => name.map fun name => (name, value) with
  | some members => .object members
  | none => .unreadable

mutual

/-- The value at the front of the text, inside `depth` arrays and objects, and what follows it. -/
def readValue : (fuel depth : Nat) → List Char → Option (Json × List Char)
  | 0, _, _ => none
  | fuel + 1, depth, cs =>
    match skipBlanks cs with
    | '[' :: cs => do
      let (items, cs) ← readArray fuel (depth + 1) cs
      return (nested depth (.array items), cs)
    | '{' :: cs => do
      let (members, cs) ← readObject fuel (depth + 1) cs
      return (nested depth (ofMembers members), cs)
    | '"' :: cs => do
      let (content, cs) ← readText cs
      return (content.elim .unreadable .text, cs)
    | 'n' :: 'u' :: 'l' :: 'l' :: cs => some (.null, cs)
    | 't' :: 'r' :: 'u' :: 'e' :: cs => some (.bool true, cs)
    | 'f' :: 'a' :: 'l' :: 's' :: 'e' :: cs => some (.bool false, cs)
    | cs => do
      let (numeral, cs) ← scanNumber cs
      return (numeral.toJson, cs)

/-- The items of an array, after its opening bracket. -/
def readArray : (fuel depth : Nat) → List Char → Option (List Json × List Char)
  | 0, _, _ => none
  | fuel + 1, depth, cs =>
    match skipBlanks cs with
    | ']' :: cs => some ([], cs)
    | cs => readItems fuel depth cs

/-- One item or more, separated by commas, and the closing bracket. -/
def readItems : (fuel depth : Nat) → List Char → Option (List Json × List Char)
  | 0, _, _ => none
  | fuel + 1, depth, cs => do
    let (item, cs) ← readValue fuel depth cs
    match skipBlanks cs with
    | ',' :: cs =>
      let (items, cs) ← readItems fuel depth cs
      return (item :: items, cs)
    | ']' :: cs => return ([item], cs)
    | _ => none

/-- The members of an object, after its opening brace. -/
def readObject : (fuel depth : Nat) → List Char → Option (List (Option String × Json) × List Char)
  | 0, _, _ => none
  | fuel + 1, depth, cs =>
    match skipBlanks cs with
    | '}' :: cs => some ([], cs)
    | cs => readMembers fuel depth cs

/-- One member or more, separated by commas, and the closing brace. -/
def readMembers : (fuel depth : Nat) → List Char → Option (List (Option String × Json) × List Char)
  | 0, _, _ => none
  | fuel + 1, depth, cs =>
    match skipBlanks cs with
    | '"' :: cs => do
      let (name, cs) ← readText cs
      match skipBlanks cs with
      | ':' :: cs =>
        let (value, cs) ← readValue fuel depth cs
        match skipBlanks cs with
        | ',' :: cs =>
          let (members, cs) ← readMembers fuel depth cs
          return ((name, value) :: members, cs)
        | '}' :: cs => return ([(name, value)], cs)
        | _ => none
      | _ => none
    | _ => none

end

/-- Reads a text that consists of one value. -/
def parse? (text : String) : Option Json := do
  let cs := text.toList
  let (value, rest) ← readValue (3 * cs.length + 3) 0 cs
  if (skipBlanks rest).isEmpty then return value else none

end DecisionTable.Json
