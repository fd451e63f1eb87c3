/-!
# Key paths

The way from the root of a tree to the position where something is being merged, kept to label
errors. A path that knows the names of the columns labels each segment with the name of its depth.
-/

namespace DecisionTable

structure KeyPath where
  columns : List String := []
  segments : List String := []
  deriving DecidableEq, Inhabited

namespace KeyPath

/-- The empty path without column names. -/
def root : KeyPath := {}

/-- The empty path that labels its segments with these names. -/
def forColumns (columns : List String) : KeyPath := { columns }

/-- The number of segments. -/
def depth (path : KeyPath) : Nat := path.segments.length

/-- A segment as it stands in a path below `depth` others. -/
def labelled (columns : List String) (depth : Nat) (segment : String) : String :=
  match columns[depth]? with
  | some name => s!"{name}={segment}"
  | none => segment

/-- The path one segment further down. -/
def push (path : KeyPath) (segment : String) : KeyPath :=
  { path with segments := path.segments ++ [labelled path.columns path.depth segment] }

/-- The path one segment further up; the root stays the root. -/
def pop (path : KeyPath) : KeyPath :=
  { path with segments := path.segments.dropLast }

/-- How a path is shown in a diagnostic. -/
def display (path : KeyPath) : String :=
  if path.segments.isEmpty then "<root>" else " / ".intercalate path.segments

@[simp] theorem pop_push (path : KeyPath) (segment : String) : (path.push segment).pop = path := by
  simp [push, pop]

end KeyPath

end DecisionTable
