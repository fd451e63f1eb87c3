import DecisionTable.Key.Interval

/-!
# Column keys

What a row says about one column: a key to be matched exactly, an interval to be matched by
containment, or nothing, which matches whatever no other row matches more closely.
-/

namespace DecisionTable

inductive ColumnKey where
  | exact (value : KeyValue)
  | range (interval : Interval)
  | any
  deriving DecidableEq, Inhabited

namespace ColumnKey

/-- The range key `[lower, upper)`, unless it is empty. -/
def bounded (lower upper : KeyValue) : Except TableError ColumnKey :=
  .range <$> Interval.bounded lower upper

/-- How a column key is shown in a diagnostic. -/
def display : ColumnKey → String
  | .exact value => value.display
  | .range interval => interval.display
  | .any => "*"

end ColumnKey

end DecisionTable
