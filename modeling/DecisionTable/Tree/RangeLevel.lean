import DecisionTable.Ordered.Bisect
import DecisionTable.Key.Interval
import DecisionTable.Tree.Merging

/-!
# Range levels

A level that leads from disjoint half-open intervals to children. Its bands are kept in the order of
their lower bounds, so the band of a key is found by bisection. An interval that is inserted either
is there already, and its child is merged, or lies apart from all others. While a child is being
merged its band holds a stand-in, which a failed merge leaves behind.
-/

namespace DecisionTable

/-- An interval of a range level and the child it leads to. -/
structure Band (α : Type) where
  interval : Interval
  child : α

structure RangeLevel (α : Type) where
  bands : Array (Band α) := #[]

/-- Where an interval goes among the bands of a level. -/
inductive Placement (α : Type) where
  /-- It is there already. -/
  | identical (index : Nat) (child : α)
  /-- It overlaps another interval. -/
  | overlapping (existing : Interval)
  /-- It goes in front of the band at this index. -/
  | vacant (index : Nat)

namespace RangeLevel

open Ordered

variable {α : Type}

/-- The level without bands. -/
def empty : RangeLevel α := {}

/-! ## Reading -/

/-- The band in front of an index. -/
def before? (level : RangeLevel α) : Nat → Option (Band α)
  | 0 => none
  | index + 1 => level.bands[index]?

/-- The band that holds a key: the last one that starts at or before the key, if the key lies below
its upper bound. -/
def find? (level : RangeLevel α) (key : KeyValue) : Option (Band α) :=
  let index := partitionPoint (fun band => band.interval.startsAtOrBefore key) level.bands
  (level.before? index).filter fun band => band.interval.endsAfter key

/-- The child of the band that holds a key. -/
def get? (level : RangeLevel α) (key : KeyValue) : Option α :=
  (level.find? key).map Band.child

/-- The intervals in ascending order. -/
def intervals (level : RangeLevel α) : List Interval :=
  level.bands.toList.map Band.interval

/-- The number of bands. -/
def size (level : RangeLevel α) : Nat := level.bands.size

/-- Whether there is no band. -/
def isEmpty (level : RangeLevel α) : Bool := level.bands.isEmpty

/-- Whether every band starts above the one in front of it and does not overlap it. -/
def isSortedAndDisjoint (level : RangeLevel α) : Bool :=
  (level.intervals.zip level.intervals.tail).all fun (i, j) =>
    (i.compareLower j).isLT && !i.overlaps j

/-! ## Changing -/

/-- Finds the place of an interval. The bands around its lower bound decide: the first one that does
not start below it, and the one in front of that. -/
def place (level : RangeLevel α) (interval : Interval) : Placement α :=
  let index := partitionPoint (fun band => (band.interval.compareLower interval).isLT) level.bands
  let behind : Placement α :=
    match level.before? index with
    | some band =>
      if band.interval.overlaps interval then .overlapping band.interval else .vacant index
    | none => .vacant index
  match level.bands[index]? with
  | some band =>
    if band.interval = interval then .identical index band.child
    else if band.interval.overlaps interval then .overlapping band.interval
    else behind
  | none => behind

/-- The level with another child at an index. -/
def setChild (level : RangeLevel α) (index : Nat) (child : α) : RangeLevel α :=
  ⟨level.bands.modify index fun band => { band with child }⟩

/-- The level with a band more, at an index. -/
def insertBand (level : RangeLevel α) (index : Nat) (band : Band α) : RangeLevel α :=
  ⟨level.bands.insertIdxIfInBounds index band⟩

/-- Inserts a child for an interval. The child of an identical interval is replaced by what `merge`
makes of it, with `standIn` in its place meanwhile. -/
def insert (standIn : α) (merge : α → Merging α) (interval : Interval) (child : α) :
    Filling (RangeLevel α) Unit := do
  let { level, path } ← get
  if interval.isEmpty then
    throw (.invalidKey path.depth s!"empty interval {interval.display} at {path.display}" none)
  match level.place interval with
  | .overlapping existing =>
    throw (.overlappingRange path.display existing.display interval.display none)
  | .vacant index => Filling.setLevel (level.insertBand index { interval, child })
  | .identical index existing =>
    Filling.push interval.display
    Filling.setLevel (level.setChild index standIn)
    let merged ← Filling.merging (merge existing)
    Filling.pop
    Filling.setLevel (level.setChild index merged)

end RangeLevel

end DecisionTable
