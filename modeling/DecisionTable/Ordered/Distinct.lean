/-!
# Finite sets as ascending lists

A finite set is kept as the strictly ascending list of its elements, so that two sets are equal
exactly when their lists are. `mem_insert` and `mem_ofList` give the elements.
-/

namespace DecisionTable.Ordered.Distinct

variable {α : Type} [Ord α]

/-- Adds an element, if it is not there yet. -/
def insert (a : α) : List α → List α
  | [] => [a]
  | b :: rest =>
    match compare a b with
    | .lt => a :: b :: rest
    | .eq => b :: rest
    | .gt => b :: insert a rest

/-- Adds every element of `added`. -/
def union (elements added : List α) : List α :=
  added.foldl (fun acc a => insert a acc) elements

/-- The set of the elements of a list. -/
def ofList (elements : List α) : List α :=
  union [] elements

/-- The elements are strictly ascending. -/
def Ascending (elements : List α) : Prop :=
  elements.Pairwise fun a b => compare a b = .lt

theorem mem_insert [Std.LawfulEqOrd α] {a x : α} {elements : List α} :
    x ∈ insert a elements ↔ x = a ∨ x ∈ elements := by
  induction elements with
  | nil => simp [insert]
  | cons b rest ih =>
    simp only [insert]
    split
    · simp
    · rename_i h
      have hab : a = b := Std.LawfulEqOrd.eq_of_compare h
      subst hab
      simp
    · simp only [List.mem_cons, ih]
      exact or_left_comm

theorem mem_union [Std.LawfulEqOrd α] {x : α} {elements added : List α} :
    x ∈ union elements added ↔ x ∈ elements ∨ x ∈ added := by
  induction added generalizing elements with
  | nil => simp [union]
  | cons a rest ih =>
    have step : union elements (a :: rest) = union (insert a elements) rest := rfl
    rw [step, ih, mem_insert, List.mem_cons, or_assoc, or_left_comm]

/-- The set of a list has the elements of the list. -/
theorem mem_ofList [Std.LawfulEqOrd α] {x : α} {elements : List α} :
    x ∈ ofList elements ↔ x ∈ elements := by
  simp [ofList, mem_union]

end DecisionTable.Ordered.Distinct
