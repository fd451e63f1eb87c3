import DecisionTable.Proofs.Key.Interval

/-!
# The keys in an interval

Whether an interval is empty, and whether two intervals overlap, is decided by comparing bounds. That
a key lies in an interval, or in both of two, is the same thing in all cases but one. Where a lower
bound is present, the greater one is the first key in question. Where none is, that is the least
key of all, and nothing lies below it: so the interval of all keys below the least one is not empty
by its bounds, and overlaps others, although there is no key in it.

* `Occupied`, `Meets` : some key lies in an interval, or in both of two;
* `overlaps_iff_meets` : intervals that are not empty overlap if some key lies in both, or if both
  are open below and one of them holds nothing;
* `check_iff_and_overlaps_iff` : when an interval passes its check, and when two that do overlap.
-/

namespace DecisionTable

/-! ## The least key -/

namespace KeyValue

def least : KeyValue := .bool false

theorem least_le (key : KeyValue) : least ≤ key := by
  cases key with
  | bool b => cases b <;> decide
  | integer n => exact isLE_compare.mp rfl
  | text s => exact isLE_compare.mp rfl

theorem not_lt_least (key : KeyValue) : ¬ key < least :=
  Std.not_lt.mpr (least_le key)

theorem least_lt {key : KeyValue} (h : key ≠ least) : least < key :=
  Std.lt_of_le_of_ne (least_le key) h.symm

end KeyValue

namespace Interval

open KeyValue (least)

variable {i j : Interval} {key : KeyValue}

def Occupied (i : Interval) : Prop :=
  ∃ key, i.contains key = true

def Meets (i j : Interval) : Prop :=
  ∃ key, i.contains key = true ∧ j.contains key = true

theorem Meets.symm (h : i.Meets j) : j.Meets i :=
  h.imp fun _ => And.symm

theorem meets_self_iff : i.Meets i ↔ i.Occupied := by
  simp [Meets, Occupied]

theorem check_eq_ok_iff : i.check = .ok () ↔ i.isEmpty = false := by
  unfold check
  cases i.isEmpty <;> simp [throw, throwThe, MonadExceptOf.throw, pure, Except.pure]

/-! ## Where the first key is -/

/-- The lower bound of an interval lies in every interval that overlaps it and starts no later. -/
theorem contains_lower {lower : KeyValue} (hlower : i.lower = some lower)
    (hstart : j.startsAtOrBefore lower = true) (h : i.overlaps j = true) :
    j.contains lower = true := by
  rw [← Bool.not_eq_false, overlaps_eq_false_iff, not_or] at h
  refine contains_iff.mpr ⟨startsAtOrBefore_iff.mp hstart, fun upper hupper => ?_⟩
  exact Std.not_le.mp fun hle => h.2 ⟨upper, hupper, lower, hlower, hle⟩

/-- If the later of two lower bounds is that of the first interval, it lies in both. -/
theorem meets_of_lower {lower : KeyValue} (hi : i.isEmpty = false) (hlower : i.lower = some lower)
    (hstart : j.startsAtOrBefore lower = true) (h : i.overlaps j = true) : i.Meets j := by
  have hself : i.overlaps i = true := by rw [overlaps_self, hi, Bool.not_false]
  have hfirst : i.startsAtOrBefore lower = true := by
    rw [startsAtOrBefore_iff, hlower]
    rintro _ ⟨⟩
    exact Std.le_refl _
  exact ⟨lower, contains_lower hlower hfirst hself, contains_lower hlower hstart h⟩

/-- An interval that is open below holds the least key, unless it ends there. -/
theorem contains_least (hlower : i.lower = none) (hne : i ≠ below least) :
    i.contains least = true := by
  obtain ⟨_, upper⟩ := i
  obtain rfl : _ = none := hlower
  refine contains_iff.mpr ⟨by simp, fun u hu => KeyValue.least_lt ?_⟩
  rintro rfl
  exact hne (congrArg (Interval.mk none) hu)

/-- No key lies below the least one. -/
theorem not_occupied_below_least : ¬ (below least).Occupied := by
  rintro ⟨key, hkey⟩
  exact KeyValue.not_lt_least key ((contains_iff.mp hkey).2 least rfl)

/-! ## Overlap and emptiness -/

theorem overlaps_of_meets (h : i.Meets j) : i.overlaps j = true := by
  obtain ⟨key, hi, hj⟩ := h
  exact overlaps_of_contains hi hj

theorem overlaps_of_open_below (hi : i.lower = none) (hj : j.lower = none) :
    i.overlaps j = true := by
  simp [overlaps, startsBeforeEndOf, hi, hj]

theorem overlaps_iff_meets (hi : i.isEmpty = false) (hj : j.isEmpty = false) :
    i.overlaps j = true ↔ i.Meets j ∨
      i.lower = none ∧ j.lower = none ∧ (i = below least ∨ j = below least) := by
  constructor
  · intro h
    have hsymm : j.overlaps i = true := overlaps_comm i j ▸ h
    cases hl : i.lower with
    | none =>
        cases hm : j.lower with
        | none =>
            by_cases hhollow : i = below least ∨ j = below least
            · exact Or.inr ⟨rfl, rfl, hhollow⟩
            · rw [not_or] at hhollow
              exact Or.inl ⟨least, contains_least hl hhollow.1, contains_least hm hhollow.2⟩
        | some m =>
            exact Or.inl (meets_of_lower hj hm (by simp [startsAtOrBefore, hl]) hsymm).symm
    | some l =>
        cases hm : j.lower with
        | none => exact Or.inl (meets_of_lower hi hl (by simp [startsAtOrBefore, hm]) h)
        | some m =>
            rcases Std.le_total (a := m) (b := l) with hle | hle
            · have hstart : j.startsAtOrBefore l = true :=
                startsAtOrBefore_iff.mpr (by simpa [hm] using hle)
              exact Or.inl (meets_of_lower hi hl hstart h)
            · have hstart : i.startsAtOrBefore m = true :=
                startsAtOrBefore_iff.mpr (by simpa [hl] using hle)
              exact Or.inl (meets_of_lower hj hm hstart hsymm).symm
  · rintro (h | ⟨hl, hm, -⟩)
    · exact overlaps_of_meets h
    · exact overlaps_of_open_below hl hm

theorem isEmpty_eq_false_iff : i.isEmpty = false ↔ i.Occupied ∨ i = below least := by
  constructor
  · intro h
    have hself : i.overlaps i = true := by rw [overlaps_self, h, Bool.not_false]
    refine ((overlaps_iff_meets h h).mp hself).imp meets_self_iff.mp ?_
    rintro ⟨-, -, hbelow | hbelow⟩
    · exact hbelow
    · exact hbelow
  · rintro (h | rfl)
    · have hself := overlaps_of_meets (meets_self_iff.mpr h)
      rwa [overlaps_self, Bool.not_eq_true'] at hself
    · rfl

/-- An interval passes its check if some key lies in it, or if it is that of the keys below the
least one. Two that pass overlap if some key lies in both, or if both are open below and one is that
of the keys below the least one. -/
theorem check_iff_and_overlaps_iff (i j : Interval) :
    (i.check = .ok () ↔ i.Occupied ∨ i = below least) ∧
    (i.check = .ok () → j.check = .ok () → (i.overlaps j = true ↔ i.Meets j ∨
      i.lower = none ∧ j.lower = none ∧ (i = below least ∨ j = below least))) := by
  refine ⟨check_eq_ok_iff.trans isEmpty_eq_false_iff, fun hi hj => ?_⟩
  exact overlaps_iff_meets (check_eq_ok_iff.mp hi) (check_eq_ok_iff.mp hj)

/-- The interval of the keys below the least one passes its check and overlaps the interval of all
keys, although no key lies in it. -/
theorem check_below_least :
    (below least).check = .ok () ∧ ¬ (below least).Occupied ∧
    unbounded.check = .ok () ∧ (below least).overlaps unbounded = true ∧
      ¬ (below least).Meets unbounded := by
  refine ⟨rfl, not_occupied_below_least, rfl, rfl, ?_⟩
  rintro ⟨key, hkey, -⟩
  exact not_occupied_below_least ⟨key, hkey⟩

end Interval

end DecisionTable
