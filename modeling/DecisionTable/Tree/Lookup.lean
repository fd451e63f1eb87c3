import DecisionTable.Tree.Basic

/-!
# Looking keys up

A lookup is a position in a tree, or no position once a key has been missed. It goes down one level
per key; a leaf is reached already, so further keys leave it where it is. No position behaves like a
leaf without payloads.
-/

namespace DecisionTable

structure Lookup (P : Type) where
  node : Option (Tree P)

/-- Where a key leads from the root of a tree. -/
def Tree.descend {P : Type} (tree : Tree P) (key : KeyValue) : Lookup P :=
  match tree with
  | .exact level => ⟨level.get? key⟩
  | .range level => ⟨level.get? key⟩
  | leaf => ⟨some leaf⟩

namespace Lookup

variable {P : Type}

/-- No position. -/
def empty : Lookup P := ⟨none⟩

/-- The position at the root of a tree. -/
def ofTree (tree : Tree P) : Lookup P := ⟨some tree⟩

/-- Whether no position is left. -/
def isEmpty (lookup : Lookup P) : Bool := lookup.node.isNone

/-- Goes one level down. -/
def descend (lookup : Lookup P) (key : KeyValue) : Lookup P :=
  match lookup.node with
  | some tree => tree.descend key
  | none => empty

/-- Goes one level down per key. -/
def descendAll (lookup : Lookup P) (keys : List KeyValue) : Lookup P :=
  keys.foldl descend lookup

variable [Ord P]

/-- The set of payloads below the position. -/
def values (lookup : Lookup P) : List P :=
  lookup.node.elim [] Tree.values

/-- The payload below the position, if there is exactly one. -/
def uniqueValue (lookup : Lookup P) : Except TableError P :=
  lookup.node.elim (throw .notFound) Tree.uniqueValue

/-- The payload below the position, if there is exactly one, and a default if there is none. -/
def uniqueValueOr (default : P) (lookup : Lookup P) : Except TableError P :=
  Tree.recoverNotFound default lookup.uniqueValue

end Lookup

end DecisionTable
