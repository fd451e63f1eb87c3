import DecisionTable.Ordered.Entries
import DecisionTable.Key.Value
import DecisionTable.Tree.Merging

/-!
# Exact levels

A level that leads from discrete keys to children, in ascending key order, with an optional fallback
child for keys that have none of their own. Inserting at a key that has a child merges the two; the
child is taken out for that, so a failed merge leaves the level without it.
-/

namespace DecisionTable

structure ExactLevel (α : Type) where
  children : List (KeyValue × α) := []
  fallback : Option α := none

namespace ExactLevel

open Ordered

variable {α : Type}

/-- The level without children. -/
def empty : ExactLevel α := {}

/-! ## Reading -/

/-- The child at exactly this key. -/
def getExact? (level : ExactLevel α) (key : KeyValue) : Option α :=
  level.children.lookup key

/-- The child at this key, or else the fallback. -/
def get? (level : ExactLevel α) (key : KeyValue) : Option α :=
  (level.getExact? key).or level.fallback

/-- The keys that have a child of their own. -/
def keys (level : ExactLevel α) : List KeyValue :=
  level.children.map Prod.fst

/-- Every child, the fallback last. -/
def childList (level : ExactLevel α) : List α :=
  level.children.map Prod.snd ++ level.fallback.toList

/-- The number of keys that have a child of their own. -/
def size (level : ExactLevel α) : Nat := level.children.length

/-- Whether there is no child at all. -/
def isEmpty (level : ExactLevel α) : Bool :=
  level.children.isEmpty && level.fallback.isNone

/-! ## Changing -/

/-- The level with `child` as the child at `key`. -/
def put (level : ExactLevel α) (key : KeyValue) (child : α) : ExactLevel α :=
  { level with children := Entries.put key child level.children }

/-- The level without a child at `key`. -/
def remove (level : ExactLevel α) (key : KeyValue) : ExactLevel α :=
  { level with children := Entries.remove key level.children }

/-- Inserts a child at a key. A child that is there already is replaced by what `merge` makes of
it. -/
def insert (merge : α → Merging α) (key : KeyValue) (child : α) : Filling (ExactLevel α) Unit := do
  Filling.push key.display
  let level := (← get).level
  match level.getExact? key with
  | some existing =>
    Filling.setLevel (level.remove key)
    let merged ← Filling.merging (merge existing)
    Filling.pop
    Filling.setLevel (level.put key merged)
  | none =>
    Filling.pop
    Filling.setLevel (level.put key child)

/-- Inserts a fallback child. One that is there already is replaced by what `merge` makes of it. -/
def insertFallback (merge : α → Merging α) (child : α) : Filling (ExactLevel α) Unit := do
  Filling.push "*"
  let level := (← get).level
  match level.fallback with
  | some existing =>
    Filling.setLevel { level with fallback := none }
    let merged ← Filling.merging (merge existing)
    Filling.pop
    Filling.setLevel { level with fallback := some merged }
  | none =>
    Filling.pop
    Filling.setLevel { level with fallback := some child }

end ExactLevel

end DecisionTable
