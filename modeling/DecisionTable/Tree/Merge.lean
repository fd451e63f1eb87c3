import DecisionTable.Tree.Basic

/-!
# Merging trees

Two trees for one position become one. What happens is settled by their kinds:

| existing, incoming | exact      | range         | unique     | multi      |
|--------------------|------------|---------------|------------|------------|
| exact              | per key    | kind error    | kind error | kind error |
| range              | kind error | per interval  | kind error | kind error |
| unique             | kind error | kind error    | violation  | kind error |
| multi              | kind error | kind error    | kind error | union      |

The children of the incoming tree are inserted into the existing one in order, the fallback last.
-/

namespace DecisionTable.Tree

open Ordered

variable {P : Type} [Payload P]

mutual

/-- Merges `incoming` into `existing` at the current key path. -/
def merge : (existing incoming : Tree P) → Merging (Tree P)
  | .exact level, .exact ⟨children, none⟩ =>
    .exact <$> Filling.into level (absorbChildren children)
  | .exact level, .exact ⟨children, some fallback⟩ =>
    .exact <$> Filling.into level do
      absorbChildren children
      ExactLevel.insertFallback (fun existing => existing.merge fallback) fallback
  | .range level, .range ⟨⟨bands⟩⟩ => .range <$> Filling.into level (absorbBands bands)
  | .multi values, .multi values' => return .multi (Distinct.union values values')
  | .unique value row, .unique value' row' => do
    throw (.uniqueKeyViolation (← get).display (Payload.display value) (Payload.display value')
      row row')
  | existing, incoming => do
    throw (.inconsistentLeafKind (← get).display existing.kind incoming.kind none)

/-- Inserts children into an exact level, in order. -/
def absorbChildren : List (KeyValue × Tree P) → Filling (ExactLevel (Tree P)) Unit
  | [] => return ()
  | (key, child) :: rest => do
    ExactLevel.insert (fun existing => existing.merge child) key child
    absorbChildren rest

/-- Inserts bands into a range level, in order. -/
def absorbBands : List (Band (Tree P)) → Filling (RangeLevel (Tree P)) Unit
  | [] => return ()
  | ⟨interval, child⟩ :: rest => do
    RangeLevel.insert empty (fun existing => existing.merge child) interval child
    absorbBands rest

end

end DecisionTable.Tree
