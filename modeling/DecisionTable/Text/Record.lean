import DecisionTable.Text.Quoted

/-!
# Record text

How a value with named parts is shown inside a diagnostic: its name and, in braces, every part with
its own name, in a fixed order. A value without parts is shown by its name alone.
-/

namespace DecisionTable.Text

/-- A name and its parts, each a label and the text of its value. -/
def record (name : String) : List (String × String) → String
  | [] => name
  | parts =>
    name ++ " \x7b " ++ ", ".intercalate (parts.map fun part => part.1 ++ ": " ++ part.2) ++ " \x7d"

/-- A part that may be absent. -/
def optional : Option String → String
  | none => "None"
  | some text => "Some(" ++ text ++ ")"

/-- A list of parts in square brackets. -/
def bracketed (items : List String) : String :=
  "[" ++ ", ".intercalate items ++ "]"

end DecisionTable.Text
