import DecisionTable.Proofs.Ordered
import DecisionTable.Tree.Lookup

/-!
# Ways to read a result

What lies below a position can be read as a set of payloads, as the only payload, or as the only
payload with a default. The second reading is settled by the first: it is the element of a set with
just one, and otherwise it tells how many there are. The third differs from the second only where
the set is empty.

* `Readings` : a set, the only element and the only element with a default go together;
* `Lookup.uniqueValue_eq` : the only payload is that of the set, also at a unique leaf;
* `Tree.readings`, `Lookup.readings` : so it is with every structure and at every position.
-/

namespace DecisionTable

open Ordered

variable {P : Type}

/-- A set of payloads, the only payload, and the only payload with a default are readings of one
result. -/
structure Readings [Ord P] (values : List P) (unique : Except TableError P)
    (uniqueOr : P → Except TableError P) : Prop where
  ascending : Distinct.Ascending values
  found : ∀ value, unique = .ok value ↔ values = [value]
  missing : unique = .error .notFound ↔ values = []
  ambiguous : ∀ count, unique = .error (.ambiguousResult count) ↔
    2 ≤ count ∧ values.length = count
  recovered : unique = .error .notFound → ∀ default, uniqueOr default = .ok default
  kept : unique ≠ .error .notFound → ∀ default, uniqueOr default = unique

namespace Tree

variable {values : List P}

/-! ## The element of a set -/

@[simp] theorem single_nil : single ([] : List P) = .error .notFound := rfl

@[simp] theorem single_singleton (value : P) : single [value] = .ok value := rfl

@[simp] theorem single_cons_cons (value other : P) (rest : List P) :
    single (value :: other :: rest) = .error (.ambiguousResult (rest.length + 2)) := rfl

theorem single_eq_ok_iff {value : P} : single values = .ok value ↔ values = [value] := by
  rcases values with _ | ⟨v, _ | ⟨w, rest⟩⟩ <;> simp

theorem single_eq_notFound_iff : single values = .error .notFound ↔ values = [] := by
  rcases values with _ | ⟨v, _ | ⟨w, rest⟩⟩ <;> simp

theorem single_eq_ambiguous_iff {count : Nat} :
    single values = .error (.ambiguousResult count) ↔ 2 ≤ count ∧ values.length = count := by
  rcases values with _ | ⟨v, _ | ⟨w, rest⟩⟩ <;> simp <;> omega

theorem recoverNotFound_of_ne {result : Except TableError P} (h : result ≠ .error .notFound)
    (default : P) : recoverNotFound default result = result := by
  unfold recoverNotFound
  split
  · exact absurd rfl h
  · rfl

/-- A set in ascending order, its element, and its element with a default. -/
theorem readings_single [Ord P] (h : Distinct.Ascending values) :
    Readings values (single values) fun default => recoverNotFound default (single values) where
  ascending := h
  found _ := single_eq_ok_iff
  missing := single_eq_notFound_iff
  ambiguous _ := single_eq_ambiguous_iff
  recovered hmissing default := by rw [hmissing]; rfl
  kept hne := recoverNotFound_of_ne hne

end Tree

/-! ## Structures and positions -/

/-- The unique value of a tree is that of its set of payloads. -/
theorem Tree.uniqueValue_eq [Ord P] (tree : Tree P) : tree.uniqueValue = single tree.values := by
  cases tree <;> rfl

theorem Lookup.uniqueValue_eq [Ord P] (lookup : Lookup P) :
    lookup.uniqueValue = Tree.single lookup.values := by
  obtain ⟨_ | tree⟩ := lookup
  · rfl
  · exact tree.uniqueValue_eq

variable [Payload P]

theorem Lookup.ascending_values (lookup : Lookup P) : Distinct.Ascending lookup.values := by
  obtain ⟨_ | tree⟩ := lookup
  · exact List.Pairwise.nil
  · exact Distinct.ascending_ofList tree.payloads

theorem Lookup.readings (lookup : Lookup P) :
    Readings lookup.values lookup.uniqueValue fun default => lookup.uniqueValueOr default := by
  unfold Lookup.uniqueValueOr
  rw [lookup.uniqueValue_eq]
  exact Tree.readings_single lookup.ascending_values

theorem Tree.readings (tree : Tree P) :
    Readings tree.values tree.uniqueValue fun default => tree.uniqueValueOr default :=
  (Lookup.ofTree tree).readings

end DecisionTable
