import DecisionTable.Tree.Basic

/-!
# The shape of a tree

How many levels, bands, fallbacks and leaves a tree has, and how deep it is. The shape of a level is
put together from those of its children: counts add up, and the depth is that of the deepest.
-/

namespace DecisionTable

structure Shape where
  exactLevels : Nat := 0
  rangeLevels : Nat := 0
  bands : Nat := 0
  fallbacks : Nat := 0
  uniqueLeaves : Nat := 0
  multiLeaves : Nat := 0
  depth : Nat := 0
  deriving DecidableEq, Inhabited

namespace Shape

/-- Two structures side by side. -/
def beside (a b : Shape) : Shape where
  exactLevels := a.exactLevels + b.exactLevels
  rangeLevels := a.rangeLevels + b.rangeLevels
  bands := a.bands + b.bands
  fallbacks := a.fallbacks + b.fallbacks
  uniqueLeaves := a.uniqueLeaves + b.uniqueLeaves
  multiLeaves := a.multiLeaves + b.multiLeaves
  depth := max a.depth b.depth

end Shape

namespace Tree

variable {P : Type}

mutual

def shape : Tree P → Shape
  | .exact ⟨children, none⟩ =>
    let below := shapeOfChildren children
    { below with exactLevels := below.exactLevels + 1 }
  | .exact ⟨children, some fallback⟩ =>
    let below := (shapeOfChildren children).beside (shapeBelow fallback)
    { below with exactLevels := below.exactLevels + 1, fallbacks := below.fallbacks + 1 }
  | .range ⟨⟨bands⟩⟩ =>
    let below := shapeOfBands bands
    { below with rangeLevels := below.rangeLevels + 1, bands := below.bands + bands.length }
  | .unique .. => { uniqueLeaves := 1 }
  | .multi _ => { multiLeaves := 1 }

/-- The shape of a child, seen from its parent. -/
def shapeBelow (child : Tree P) : Shape :=
  let shape := child.shape
  { shape with depth := shape.depth + 1 }

def shapeOfChildren : List (KeyValue × Tree P) → Shape
  | [] => {}
  | (_, child) :: rest => (shapeBelow child).beside (shapeOfChildren rest)

def shapeOfBands : List (Band (Tree P)) → Shape
  | [] => {}
  | ⟨_, child⟩ :: rest => (shapeBelow child).beside (shapeOfBands rest)

end

end Tree

end DecisionTable
