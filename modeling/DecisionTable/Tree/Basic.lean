import DecisionTable.Ordered.Distinct
import DecisionTable.Payload
import DecisionTable.Tree.ExactLevel
import DecisionTable.Tree.RangeLevel

/-!
# Search trees

A lookup table is a tree with one level per key column, above leaves. An exact level matches keys by
equality, a range level by containment; a unique leaf holds one payload, and the row it came from,
and a multi leaf holds a set of payloads.

* `payloads`, `values` : the payloads below a tree, as a list and as a set;
* `uniqueValue` : the payload below a tree, if there is exactly one;
* `agrees` : equality of trees, rows apart.
-/

namespace DecisionTable

open Ordered

inductive Tree (P : Type) where
  | exact (level : ExactLevel (Tree P))
  | range (level : RangeLevel (Tree P))
  | unique (value : P) (row : Option Nat)
  | multi (values : List P)

namespace Tree

variable {P : Type}

/-! ## Leaves -/

/-- The multi leaf that holds nothing. -/
def empty : Tree P := .multi []

instance : Inhabited (Tree P) := ⟨empty⟩

/-- The unique leaf of a payload, which must be there. -/
def uniqueLeaf (payload : Option P) (row : Option Nat) : Except TableError (Tree P) :=
  match payload with
  | some value => return .unique value row
  | none => throw (.invalidResult "unique result requires a payload" none)

/-- The multi leaf of some payloads. -/
def multiLeaf [Ord P] (payloads : List P) : Tree P :=
  .multi (Distinct.ofList payloads)

/-! ## Kinds -/

/-- The name of the kind of a structure, as a diagnostic shows it. -/
def kind : Tree P → String
  | .exact _ => "exact node"
  | .range _ => "range node"
  | .unique .. => "unique result"
  | .multi _ => "multi result"

def isLeaf : Tree P → Bool
  | .exact _ | .range _ => false
  | .unique .. | .multi _ => true

/-! ## Payloads -/

mutual

/-- The payloads below a tree, from left to right, with repetitions. -/
def payloads : Tree P → List P
  | .exact ⟨children, none⟩ => payloadsOfChildren children
  | .exact ⟨children, some fallback⟩ => payloadsOfChildren children ++ fallback.payloads
  | .range ⟨⟨bands⟩⟩ => payloadsOfBands bands
  | .unique value _ => [value]
  | .multi values => values

def payloadsOfChildren : List (KeyValue × Tree P) → List P
  | [] => []
  | (_, child) :: rest => child.payloads ++ payloadsOfChildren rest

def payloadsOfBands : List (Band (Tree P)) → List P
  | [] => []
  | ⟨_, child⟩ :: rest => child.payloads ++ payloadsOfBands rest

end

/-- The set of payloads below a tree. -/
def values [Ord P] (tree : Tree P) : List P :=
  Distinct.ofList tree.payloads

/-- The element of a set that should have exactly one. -/
def single : List P → Except TableError P
  | [value] => return value
  | [] => throw .notFound
  | values => throw (.ambiguousResult values.length)

/-- The payload below a tree, if there is exactly one. -/
def uniqueValue [Ord P] : Tree P → Except TableError P
  | .unique value _ => return value
  | tree => single tree.values

/-- Turns the failure to find a payload into a default. -/
def recoverNotFound (default : P) : Except TableError P → Except TableError P
  | .error .notFound => return default
  | result => result

/-- The payload below a tree, if there is exactly one, and a default if there is none. -/
def uniqueValueOr [Ord P] (default : P) (tree : Tree P) : Except TableError P :=
  recoverNotFound default tree.uniqueValue

/-! ## Equality -/

mutual

/-- Whether two trees are equal, apart from the rows that their unique leaves came from. -/
def agrees [Ord P] : Tree P → Tree P → Bool
  | .exact ⟨children, none⟩, .exact ⟨children', none⟩ => childrenAgree children children'
  | .exact ⟨children, some fallback⟩, .exact ⟨children', some fallback'⟩ =>
    childrenAgree children children' && fallback.agrees fallback'
  | .range ⟨⟨bands⟩⟩, .range ⟨⟨bands'⟩⟩ => bandsAgree bands bands'
  | .unique value _, .unique value' _ => compare value value' == .eq
  | .multi values, .multi values' => compare values values' == .eq
  | _, _ => false

def childrenAgree [Ord P] : List (KeyValue × Tree P) → List (KeyValue × Tree P) → Bool
  | [], [] => true
  | (key, child) :: rest, (key', child') :: rest' =>
    key == key' && child.agrees child' && childrenAgree rest rest'
  | _, _ => false

def bandsAgree [Ord P] : List (Band (Tree P)) → List (Band (Tree P)) → Bool
  | [], [] => true
  | ⟨interval, child⟩ :: rest, ⟨interval', child'⟩ :: rest' =>
    interval == interval' && child.agrees child' && bandsAgree rest rest'
  | _, _ => false

end

end Tree

end DecisionTable
