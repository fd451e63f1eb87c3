import DecisionTable.Key.Interval
import Mathlib.Order.Basic

/-!
# Disjoint intervals

Two non-empty intervals that do not overlap lie one before the other, and then the order of their
lower bounds is the order in which they lie. So a row of intervals in which neighbours are disjoint
is a row in which all are, and a key lies in at most one of them.

* `Precedes i j` : `i` ends at or below the lower bound of `j`;
* `overlaps_eq_false_iff` : disjoint means that one precedes the other;
* `precedes_of_compareLower` : lower bounds tell which one;
* `contains_iff` : a key lies in an interval that starts at or before it and ends after it.
-/

namespace DecisionTable

/-! ## The order of keys -/

namespace KeyValue

instance : Std.IsLinearOrder KeyValue := Std.IsLinearOrder.of_ord

theorem isLE_compare {a b : KeyValue} : (compare a b).isLE = true ↔ a ≤ b :=
  Std.isLE_compare

theorem isGE_compare {a b : KeyValue} : (compare a b).isGE = true ↔ b ≤ a :=
  Std.isGE_compare

theorem isLT_compare {a b : KeyValue} : (compare a b).isLT = true ↔ a < b := by
  rw [Ordering.isLT_iff_eq_lt, Std.compare_eq_lt]

end KeyValue

namespace Interval

variable {i j k : Interval} {key : KeyValue}

/-! ## Intervals that lie one before the other -/

/-- The upper bound of `i` is at or below the lower bound of `j`. -/
def Precedes (i j : Interval) : Prop :=
  ∃ upper ∈ i.upper, ∃ lower ∈ j.lower, upper ≤ lower

theorem startsBeforeEndOf_eq_false_iff : i.startsBeforeEndOf j = false ↔ j.Precedes i := by
  obtain ⟨lower, _⟩ := i
  obtain ⟨_, upper⟩ := j
  cases lower <;> cases upper <;>
    simp [startsBeforeEndOf, Precedes, ← Bool.not_eq_true, Std.compare_eq_lt, Std.not_lt]

theorem isEmpty_iff : i.isEmpty = true ↔ i.Precedes i := by
  obtain ⟨lower, upper⟩ := i
  cases lower <;> cases upper <;> simp [isEmpty, Precedes, KeyValue.isGE_compare]

theorem overlaps_eq_false_iff : i.overlaps j = false ↔ i.Precedes j ∨ j.Precedes i := by
  rw [overlaps, Bool.and_eq_false_iff, startsBeforeEndOf_eq_false_iff,
    startsBeforeEndOf_eq_false_iff, or_comm]

theorem overlaps_comm (i j : Interval) : i.overlaps j = j.overlaps i :=
  Bool.and_comm _ _

theorem overlaps_self (i : Interval) : i.overlaps i = !i.isEmpty := by
  rw [Bool.eq_iff_iff, Bool.not_eq_true', ← Bool.not_eq_false, overlaps_eq_false_iff, or_self,
    ← isEmpty_iff, Bool.not_eq_true]

instance : Std.Symm fun i j : Interval => i.overlaps j = false :=
  ⟨fun i j h => overlaps_comm i j ▸ h⟩

/-- Precedence passes over an interval that is not empty. -/
theorem Precedes.trans (hij : i.Precedes j) (hj : j.isEmpty = false) (hjk : j.Precedes k) :
    i.Precedes k := by
  rw [← Bool.not_eq_true, isEmpty_iff] at hj
  obtain ⟨u, hu, l, hl, hul⟩ := hij
  obtain ⟨u', hu', l', hl', hul'⟩ := hjk
  have hlt : l < u' := Std.not_le.mp fun h => hj ⟨u', hu', l, hl, h⟩
  exact ⟨u, hu, l', hl', by grind⟩

/-! ## Lower bounds -/

theorem compareLower_self (i : Interval) : i.compareLower i = .eq := by
  obtain ⟨lower, upper⟩ := i
  cases lower <;> simp [compareLower]

/-- An interval that is not empty starts below every interval that it precedes. -/
theorem Precedes.compareLower (hi : i.isEmpty = false) (h : i.Precedes j) :
    (i.compareLower j).isLT = true := by
  rw [← Bool.not_eq_true, isEmpty_iff] at hi
  obtain ⟨u, hu, l, hl, hul⟩ := h
  obtain ⟨lower, upper⟩ := i
  obtain ⟨lower', upper'⟩ := j
  obtain rfl : lower' = some l := hl
  obtain rfl : upper = some u := hu
  cases lower with
  | none => rfl
  | some m =>
      have hlt : m < u := Std.not_le.mp fun h => hi ⟨u, rfl, m, rfl, h⟩
      exact KeyValue.isLT_compare.mpr (by grind)

theorem compareLower_isLT_asymm (h : (i.compareLower j).isLT = true) :
    (j.compareLower i).isLT = false := by
  obtain ⟨lower, _⟩ := i
  obtain ⟨lower', _⟩ := j
  cases lower <;> cases lower' <;>
    simp_all [Interval.compareLower, ← Bool.not_eq_true, Std.compare_eq_lt]
  grind

/-- Of two disjoint intervals the one that starts below precedes the other. -/
theorem precedes_of_compareLower (hj : j.isEmpty = false) (hij : i.overlaps j = false)
    (h : (i.compareLower j).isLT = true) : i.Precedes j := by
  rcases overlaps_eq_false_iff.mp hij with hp | hp
  · exact hp
  · have := compareLower_isLT_asymm (hp.compareLower hj)
    simp [this] at h

/-- Of two disjoint intervals the one that does not start below comes after the other. -/
theorem precedes_of_not_compareLower (hi : i.isEmpty = false) (hij : i.overlaps j = false)
    (h : (i.compareLower j).isLT = false) : j.Precedes i := by
  rcases overlaps_eq_false_iff.mp hij with hp | hp
  · simp [hp.compareLower hi] at h
  · exact hp

theorem Precedes.overlaps (h : i.Precedes j) : i.overlaps j = false :=
  overlaps_eq_false_iff.mpr (Or.inl h)

theorem Precedes.ne (hi : i.isEmpty = false) (h : i.Precedes j) : i ≠ j := by
  rintro rfl
  simp [isEmpty_iff.mpr h] at hi

/-! ## Keys -/

theorem startsAtOrBefore_iff : i.startsAtOrBefore key = true ↔ ∀ l ∈ i.lower, l ≤ key := by
  obtain ⟨lower, _⟩ := i
  cases lower <;> simp [startsAtOrBefore, KeyValue.isLE_compare]

theorem endsAfter_iff : i.endsAfter key = true ↔ ∀ u ∈ i.upper, key < u := by
  obtain ⟨_, upper⟩ := i
  cases upper <;> simp [endsAfter, Std.compare_eq_lt]

theorem contains_iff : i.contains key = true ↔
    (∀ l ∈ i.lower, l ≤ key) ∧ ∀ u ∈ i.upper, key < u := by
  rw [contains, Bool.and_eq_true, startsAtOrBefore_iff, endsAfter_iff]

/-- A key that has reached an interval has passed the ones before it. -/
theorem Precedes.endsAfter (h : i.Precedes j) (hj : j.startsAtOrBefore key = true) :
    i.endsAfter key = false := by
  obtain ⟨u, hu, l, hl, hul⟩ := h
  rw [← Bool.not_eq_true, endsAfter_iff]
  intro hlt
  have hle := startsAtOrBefore_iff.mp hj l hl
  have hlt := hlt u hu
  grind

theorem Precedes.startsAtOrBefore (hi : i.isEmpty = false) (h : i.Precedes j)
    (hj : j.startsAtOrBefore key = true) : i.startsAtOrBefore key = true := by
  rw [← Bool.not_eq_true, isEmpty_iff] at hi
  obtain ⟨u, hu, l, hl, hul⟩ := h
  refine startsAtOrBefore_iff.mpr fun m hm => ?_
  have hle := startsAtOrBefore_iff.mp hj l hl
  have hlt : m < u := Std.not_le.mp fun h => hi ⟨u, hu, m, hm, h⟩
  grind

/-- Intervals that share a key overlap. -/
theorem overlaps_of_contains (hi : i.contains key = true) (hj : j.contains key = true) :
    i.overlaps j = true := by
  rw [contains_iff] at hi hj
  by_contra h
  rw [Bool.not_eq_true, overlaps_eq_false_iff] at h
  rcases h with ⟨u, hu, l, hl, hul⟩ | ⟨u, hu, l, hl, hul⟩
  · have h1 := hi.2 u hu
    have h2 := hj.1 l hl
    grind
  · have h1 := hj.2 u hu
    have h2 := hi.1 l hl
    grind

end Interval

end DecisionTable
