/-!
# Entry lists in ascending key order

A finite map is kept as a list of `(key, value)` pairs with strictly ascending keys. Looking a key
up is `List.lookup`; this module adds `put`, which replaces in place or inserts where the order
wants it, and `remove`. Neither needs the order for its lookup equation, so these carry no
hypothesis.
-/

namespace DecisionTable.Ordered.Entries

variable {κ α : Type}

/-- Sets the value at `key`, keeping the entries in ascending key order. -/
def put [Ord κ] (key : κ) (value : α) : List (κ × α) → List (κ × α)
  | [] => [(key, value)]
  | (key', value') :: rest =>
    match compare key key' with
    | .lt => (key, value) :: (key', value') :: rest
    | .eq => (key, value) :: rest
    | .gt => (key', value') :: put key value rest

/-- Drops the entry at `key`. -/
def remove [BEq κ] (key : κ) (entries : List (κ × α)) : List (κ × α) :=
  entries.filter fun entry => !(key == entry.1)

/-- The keys are strictly ascending. -/
def Ascending [Ord κ] (entries : List (κ × α)) : Prop :=
  entries.Pairwise fun a b => compare a.1 b.1 = .lt

end DecisionTable.Ordered.Entries
