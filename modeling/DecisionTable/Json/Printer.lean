import DecisionTable.Json.Text
import DecisionTable.Json.Basic

/-!
# Writing JSON text

`Json.pretty` lays a value out over several lines: every item and every member stands on a line of
its own, indented by two spaces for each array or object around it, and an empty array or object
stays on one line.
-/

namespace DecisionTable.Json

/-- A new line, indented for `depth` arrays and objects around it. -/
def newLine (depth : Nat) : List Char :=
  '\n' :: List.replicate (2 * depth) ' '

mutual

/-- The laid-out text of a value that lies inside `depth` arrays and objects. -/
def render (depth : Nat) : Json → List Char
  | .null | .fraction | .unreadable => ['n', 'u', 'l', 'l']
  | .bool true => ['t', 'r', 'u', 'e']
  | .bool false => ['f', 'a', 'l', 's', 'e']
  | .integer (.ofNat n) => Nat.toDigits 10 n
  | .integer (.negSucc n) => '-' :: Nat.toDigits 10 (n + 1)
  | .text s => renderText s
  | .array [] => ['[', ']']
  | .array (item :: items) =>
    '[' :: newLine (depth + 1) ++ render (depth + 1) item ++ renderItems (depth + 1) items
      ++ newLine depth ++ [']']
  | .object [] => ['{', '}']
  | .object ((name, value) :: members) =>
    '{' :: newLine (depth + 1) ++ renderText name ++ [':', ' '] ++ render (depth + 1) value
      ++ renderMembers (depth + 1) members ++ newLine depth ++ ['}']

/-- The items after the first. -/
def renderItems (depth : Nat) : List Json → List Char
  | [] => []
  | item :: items => ',' :: newLine depth ++ render depth item ++ renderItems depth items

/-- The members after the first. -/
def renderMembers (depth : Nat) : List (String × Json) → List Char
  | [] => []
  | (name, value) :: members =>
    ',' :: newLine depth ++ renderText name ++ [':', ' '] ++ render depth value
      ++ renderMembers depth members

end

/-- The laid-out text of a value. -/
def pretty (value : Json) : String :=
  String.ofList (render 0 value)

end DecisionTable.Json
