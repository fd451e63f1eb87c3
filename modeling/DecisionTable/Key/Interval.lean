import DecisionTable.Key.Value
import DecisionTable.Error

/-!
# Intervals

A half-open interval `[lower, upper)` of keys. A missing bound reaches to infinity on its side, so
the interval without bounds holds every key. An interval read from a file may be empty, that is,
have its lower bound at or above its upper one; `Interval.new` and `check` refuse such.
-/

namespace DecisionTable

structure Interval where
  lower : Option KeyValue := none
  upper : Option KeyValue := none
  deriving DecidableEq, Inhabited

namespace Interval

/-! ## Display -/

/-- How an interval is shown in a diagnostic. -/
def display (i : Interval) : String :=
  (match i.lower with
    | some lower => s!"[{lower.display}, "
    | none => "(-inf, ") ++
  (match i.upper with
    | some upper => s!"{upper.display})"
    | none => "+inf)")

/-! ## Emptiness -/

/-- Whether the lower bound is at or above the upper one. -/
def isEmpty (i : Interval) : Bool :=
  match i.lower, i.upper with
  | some lower, some upper => (compare lower upper).isGE
  | _, _ => false

/-- Refuses an empty interval. -/
def check (i : Interval) : Except TableError Unit :=
  if i.isEmpty then
    throw (.invalidKey 0
      s!"empty interval {i.display}: lower bound must be below upper bound" none)
  else return ()

/-- The interval with these bounds, unless it is empty. -/
def new (lower upper : Option KeyValue) : Except TableError Interval := do
  check ⟨lower, upper⟩
  return ⟨lower, upper⟩

/-- The interval `[lower, upper)`, unless it is empty. -/
def bounded (lower upper : KeyValue) : Except TableError Interval :=
  new (some lower) (some upper)

/-- The interval of all keys from `lower` on. -/
def atLeast (lower : KeyValue) : Interval := ⟨some lower, none⟩

/-- The interval of all keys below `upper`. -/
def below (upper : KeyValue) : Interval := ⟨none, some upper⟩

/-- The interval of all keys. -/
def unbounded : Interval := ⟨none, none⟩

/-- Whether both bounds are present. -/
def isBounded (i : Interval) : Bool :=
  i.lower.isSome && i.upper.isSome

/-! ## Keys and other intervals -/

/-- Whether the lower bound is at or below the key. -/
def startsAtOrBefore (i : Interval) (key : KeyValue) : Bool :=
  i.lower.all fun lower => (compare lower key).isLE

/-- Whether the key lies below the upper bound. -/
def endsAfter (i : Interval) (key : KeyValue) : Bool :=
  i.upper.all fun upper => (compare key upper).isLT

/-- Whether the key lies in the interval. -/
def contains (i : Interval) (key : KeyValue) : Bool :=
  i.startsAtOrBefore key && i.endsAfter key

/-- Whether the lower bound of `i` lies below the upper bound of `j`. -/
def startsBeforeEndOf (i j : Interval) : Bool :=
  match i.lower, j.upper with
  | some lower, some upper => (compare lower upper).isLT
  | _, _ => true

/-- Whether two intervals overlap: each starts before the other one ends. -/
def overlaps (i j : Interval) : Bool :=
  i.startsBeforeEndOf j && j.startsBeforeEndOf i

/-- Orders intervals by lower bound, a missing one first. -/
def compareLower (i j : Interval) : Ordering :=
  match i.lower, j.lower with
  | none, none => .eq
  | none, some _ => .lt
  | some _, none => .gt
  | some a, some b => compare a b

end Interval

end DecisionTable
